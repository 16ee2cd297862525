import Durable.Proofs.JsonGrammar

/-!
# Values that were read

A value that was read from a text is in normal form: its objects are in order, its integers
have at most 64 bits, and its brackets are nested no deeper than a text that can be read.  So
it is read again from its own text, whatever text it came from, unless one of its doubles is
not.
-/

namespace Durable

namespace JsonNumber

theorem takeDigits_lt {significand : Nat} (below : significand < Decimal.significandBound)
    (digits : List Char) :
    (Decimal.takeDigits significand digits).1 < Decimal.significandBound := by
  induction digits generalizing significand with
  | nil => exact below
  | cons c rest induction =>
      rw [Decimal.takeDigits]
      split
      · next fits => exact induction fits
      · exact below

theorem ofDecimal?_ne_integer {negative : Bool} {significand : Nat} {exponent : Int}
    {power : Option (Bool × List Char)} {value : Int} :
    ofDecimal? negative significand exponent power ≠ some (.integer value) := by
  have scaled : ∀ exponent, (Decimal.scale? significand exponent).map
      (fun x => double (signed negative x)) ≠ some (.integer value) := by
    intro exponent same
    obtain ⟨x, -, isDouble⟩ := Option.map_eq_some_iff.mp same
    cases isDouble
  intro read
  cases power with
  | none => exact scaled exponent read
  | some power =>
      obtain ⟨downward, digits⟩ := power
      simp only [ofDecimal?] at read
      split at read
      · split at read <;> cases read
      · exact scaled _ read

theorem ofText?_integer_bounds {text : List Char} {value : Int}
    (read : ofText? text = some (.integer value)) :
    -(Nat.pow 2 63 : Int) ≤ value ∧ value < (Nat.pow 2 64 : Int) := by
  obtain ⟨parts, -, read⟩ := Option.bind_eq_some_iff.mp read
  have below : (Decimal.takeDigits 0 parts.whole).1 < Nat.pow 2 64 :=
    takeDigits_lt (by decide) parts.whole
  unfold ofParts? at read
  generalize Decimal.takeDigits 0 parts.whole = taken at read below
  obtain ⟨significand, left⟩ := taken
  change significand < 2 ^ 64 at below
  dsimp only at read
  split at read
  · split at read
    · cases read
      change -(2 ^ 63 : Int) ≤ significand ∧ (significand : Int) < 2 ^ 64
      omega
    · split at read
      · cases read
      · next small =>
          cases read
          change ¬(significand = 0 ∨ 2 ^ 63 < significand) at small
          change -(2 ^ 63 : Int) ≤ -significand ∧ -(significand : Int) < 2 ^ 64
          omega
  · exact absurd read ofDecimal?_ne_integer
  · exact absurd read ofDecimal?_ne_integer

end JsonNumber

namespace Json

/-- The numbers that occur in a value. -/
def numbers : Json → List JsonNumber
  | .number value => [value]
  | .array elements => elementNumbers elements
  | .object members => memberNumbers members
  | _ => []
where
  elementNumbers : List Json → List JsonNumber
    | [] => []
    | value :: rest => value.numbers ++ elementNumbers rest
  memberNumbers : List (String × Json) → List JsonNumber
    | [] => []
    | (_, value) :: rest => value.numbers ++ memberNumbers rest

theorem mem_numbers_array {number : JsonNumber} {elements : List Json} :
    number ∈ (array elements).numbers ↔ ∃ element ∈ elements, number ∈ element.numbers := by
  rw [numbers]
  induction elements with
  | nil => simp [numbers.elementNumbers]
  | cons element rest induction => simp [numbers.elementNumbers, induction]

theorem mem_numbers_object {number : JsonNumber} {members : List (String × Json)} :
    number ∈ (object members).numbers ↔ ∃ member ∈ members, number ∈ member.2.numbers := by
  rw [numbers]
  induction members with
  | nil => simp [numbers.memberNumbers]
  | cons member rest induction => simp [numbers.memberNumbers, induction]

theorem depth_array_le_iff {elements : List Json} {room : Nat} :
    (array elements).depth ≤ room + 1 ↔ ∀ element ∈ elements, element.depth ≤ room := by
  rw [depth, Nat.add_comm, Nat.add_le_add_iff_right]
  induction elements with
  | nil => simp [depth.elementsDepth]
  | cons element rest induction =>
      rw [depth.elementsDepth, Nat.max_le, induction, List.forall_mem_cons]

theorem depth_object_le_iff {members : List (String × Json)} {room : Nat} :
    (object members).depth ≤ room + 1 ↔ ∀ member ∈ members, member.2.depth ≤ room := by
  rw [depth, Nat.add_comm, Nat.add_le_add_iff_right]
  induction members with
  | nil => simp [depth.membersDepth]
  | cons member rest induction =>
      rw [depth.membersDepth, Nat.max_le, induction, List.forall_mem_cons]

theorem mem_insertMember {key : String} {value : Json} {members : List (String × Json)}
    {member : String × Json} (found : member ∈ insertMember key value members) :
    member = (key, value) ∨ member ∈ members := by
  induction members with
  | nil => simpa [insertMember] using found
  | cons head rest induction =>
      obtain ⟨other, kept⟩ := head
      rw [insertMember] at found
      split at found
      · simpa using found
      · split at found
        · rcases List.mem_cons.mp found with here | later
          · exact .inl here
          · exact .inr (List.mem_cons_of_mem _ later)
        · rcases List.mem_cons.mp found with here | later
          · exact .inr (here ▸ List.mem_cons_self)
          · exact (induction later).imp_right (List.mem_cons_of_mem _)

/-- The members stand in ascending order of their keys. -/
def Ascending (members : List (String × Json)) : Prop :=
  members.Pairwise fun first second => first.1 < second.1

theorem Ascending.insertMember {members : List (String × Json)} (ascending : Ascending members)
    (key : String) (value : Json) : Ascending (insertMember key value members) := by
  induction members with
  | nil => exact List.pairwise_singleton _ _
  | cons head rest induction =>
      obtain ⟨other, kept⟩ := head
      obtain ⟨above, restAscending⟩ := List.pairwise_cons.mp ascending
      rw [Json.insertMember]
      split
      · next before =>
          refine List.pairwise_cons.mpr ⟨?_, ascending⟩
          exact List.forall_mem_cons.mpr
            ⟨before, fun member inRest => String.lt_trans before (above member inRest)⟩
      · next notBefore =>
          split
          · next same => exact List.pairwise_cons.mpr ⟨same ▸ above, restAscending⟩
          · next different =>
              refine List.pairwise_cons.mpr ⟨?_, induction restAscending⟩
              intro member found
              rcases mem_insertMember found with rfl | inRest
              · rcases Std.lt_trichotomy key other with less | same | greater
                · exact absurd less notBefore
                · exact absurd same different
                · exact greater
              · exact above member inRest

theorem insertAll_ascending {sorted : List (String × Json)} (ascending : Ascending sorted)
    (members : List Member) : Ascending (insertAll sorted members) := by
  induction members generalizing sorted with
  | nil => exact ascending
  | cons member members induction =>
      rw [insertAll_cons]
      exact induction (ascending.insertMember member.key member.value)

theorem mem_insertAll {sorted : List (String × Json)} {members : List Member}
    {entry : String × Json} (found : entry ∈ insertAll sorted members) :
    entry ∈ sorted ∨ ∃ member ∈ members, entry = member.entry := by
  induction members generalizing sorted with
  | nil => exact .inl found
  | cons member members induction =>
      rw [insertAll_cons] at found
      rcases induction found with early | ⟨later, inRest, same⟩
      · rcases mem_insertMember early with here | before
        · exact .inr ⟨member, List.mem_cons_self, here⟩
        · exact .inl before
      · exact .inr ⟨later, List.mem_cons_of_mem _ inRest, same⟩

theorem mem_insertAll_nil {members : List Member} {entry : String × Json}
    (found : entry ∈ insertAll [] members) : ∃ member ∈ members, entry = member.entry :=
  (mem_insertAll found).resolve_left (by simp)

theorem mem_listed {groups : List (List JsonToken)} {group : List JsonToken} {token : JsonToken}
    (inGroups : group ∈ groups) (inGroup : token ∈ group) : token ∈ listed groups := by
  induction groups with
  | nil => simp at inGroups
  | cons head rest induction =>
      by_cases last : rest = []
      · subst last
        rw [List.mem_singleton.mp inGroups] at inGroup
        rwa [listed_singleton]
      · rw [listed_cons last, List.mem_append]
        rcases List.mem_cons.mp inGroups with rfl | inRest
        · exact .inl inGroup
        · exact .inr (List.mem_cons_of_mem _ (induction inRest))

variable {room : Nat} {tokens : List JsonToken} {value : Json}

theorem Denotes.depth_le (denotes : Denotes room tokens value) : value.depth ≤ room := by
  induction denotes with
  | null room => exact Nat.zero_le room
  | bool room value => exact Nat.zero_le room
  | number room value => exact Nat.zero_le room
  | string room value => exact Nat.zero_le room
  | array elements each induction =>
      rw [depth_array_le_iff]
      intro element inElements
      obtain ⟨written, member, rfl⟩ := List.mem_map.mp inElements
      exact induction written member
  | object members each induction =>
      rw [ofMembers_entries, depth_object_le_iff]
      intro entry found
      obtain ⟨member, inMembers, rfl⟩ := mem_insertAll_nil found
      exact induction member inMembers

theorem Denotes.number_mem (denotes : Denotes room tokens value) {number : JsonNumber}
    (occurs : number ∈ value.numbers) : .number number ∈ tokens := by
  induction denotes with
  | null room => cases occurs
  | bool room value => cases occurs
  | string room value => cases occurs
  | number room value =>
      rw [numbers, List.mem_singleton] at occurs
      rw [occurs]
      exact List.mem_singleton_self _
  | array elements each induction =>
      obtain ⟨_, inElements, inElement⟩ := mem_numbers_array.mp occurs
      obtain ⟨element, member, rfl⟩ := List.mem_map.mp inElements
      have among := mem_listed (List.mem_map_of_mem member) (induction element member inElement)
      simp [among]
  | object members each induction =>
      rw [ofMembers_entries] at occurs
      obtain ⟨_, inObject, inValue⟩ := mem_numbers_object.mp occurs
      obtain ⟨member, inMembers, rfl⟩ := mem_insertAll_nil inObject
      have behindKey : JsonToken.number number ∈ member.group :=
        List.mem_cons_of_mem _ (List.mem_cons_of_mem _ (induction member inMembers inValue))
      have among := mem_listed (List.mem_map_of_mem inMembers) behindKey
      simp [among]

theorem Denotes.sound (denotes : Denotes room tokens value)
    (each : ∀ number ∈ value.numbers, number.Sound) : value.Sound := by
  induction denotes with
  | null room => exact .null
  | bool room value => exact .bool value
  | string room value => exact .string value
  | number room value => exact .number value (each value (List.mem_singleton_self value))
  | array elements _ induction =>
      refine .array _ ?_
      intro element inElements
      obtain ⟨written, member, rfl⟩ := List.mem_map.mp inElements
      apply induction written member
      exact fun number occurs => each number (mem_numbers_array.mpr ⟨_, inElements, occurs⟩)
  | object members _ induction =>
      rw [ofMembers_entries] at each ⊢
      refine .object _ ?_ (insertAll_ascending .nil members)
      intro entry inObject
      obtain ⟨member, inMembers, rfl⟩ := mem_insertAll_nil inObject
      apply induction member inMembers
      exact fun number occurs => each number (mem_numbers_object.mpr ⟨_, inObject, occurs⟩)

end Json

namespace JsonToken

theorem scanOne_number_read {fuel : Nat} {text rest : List Char} {number : JsonNumber}
    (scanned : scanOne fuel text = some (.number number, rest)) :
    ∃ run, JsonNumber.ofText? run = some number := by
  unfold scanOne at scanned
  split at scanned
  all_goals try cases scanned
  · obtain ⟨_, _, same⟩ := Option.map_eq_some_iff.mp scanned
    cases same
  · obtain ⟨value, read, same⟩ := Option.map_eq_some_iff.mp scanned
    cases same
    exact ⟨_, read⟩

theorem scanAll_number_read {fuel : Nat} {text : List Char} {tokens : List JsonToken}
    {number : JsonNumber} (scanned : scanAll fuel text = some tokens)
    (occurs : .number number ∈ tokens) : ∃ run, JsonNumber.ofText? run = some number := by
  induction fuel generalizing text tokens with
  | zero => cases scanned
  | succ fuel induction =>
      rw [scanAll] at scanned
      split at scanned
      · cases scanned
        cases occurs
      · obtain ⟨⟨token, rest⟩, one, scanned⟩ := Option.bind_eq_some_iff.mp scanned
        obtain ⟨later, restScanned, same⟩ := Option.bind_eq_some_iff.mp scanned
        cases same
        rcases List.mem_cons.mp occurs with rfl | inRest
        · exact scanOne_number_read one
        · exact induction restScanned inRest

end JsonToken

namespace Json

/-- The doubles of the value come back from their texts. -/
def Reprints (value : Json) : Prop :=
  ∀ x, .double x ∈ value.numbers → (JsonNumber.double x).Readable

/-- A value that was read is sound, if its doubles come back from their texts, and its brackets
are not nested too deeply. -/
theorem sound_of_parse? {text : String} {value : Json} (read : parse? text = some value)
    (reprints : value.Reprints) : value.Sound ∧ value.depth ≤ Machine.maxOpen := by
  obtain ⟨tokens, scanned, denotes⟩ := parse?_eq_some_iff.mp read
  refine ⟨denotes.sound ?_, denotes.depth_le⟩
  intro number occurs
  obtain ⟨run, numberRead⟩ := JsonToken.scanAll_number_read scanned (denotes.number_mem occurs)
  cases number with
  | integer value => exact JsonNumber.ofText?_integer_bounds numberRead
  | double x => exact reprints x occurs

/-- A value that was read from any text is read again from its own. -/
theorem parse?_render_of_parse? {text : String} {value : Json} (read : parse? text = some value)
    (reprints : value.Reprints) : parse? value.render = some value := by
  obtain ⟨sound, shallow⟩ := sound_of_parse? read reprints
  rw [sound.parse?_render, if_pos shallow]

end Json

end Durable
