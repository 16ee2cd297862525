import Durable.Proofs.JsonText

/-!
# The grammar of JSON texts

Which tokens denote which value, and how many of their brackets are open at once, without
regard to a machine.  The machine reads exactly these tokens, as long as there is room for
their brackets: from tokens that denote a value it hands the value to the innermost open
frame, and whatever it accepts begins with tokens that denote a value.
-/

namespace Durable

namespace Json

/-- Groups of tokens with a comma between each two. -/
def listed (groups : List (List JsonToken)) : List JsonToken :=
  [JsonToken.comma].intercalate groups

theorem listed_cons {others : List (List JsonToken)} (nonempty : others ≠ [])
    (group : List JsonToken) : listed (group :: others) = group ++ .comma :: listed others := by
  obtain ⟨next, others, rfl⟩ := List.exists_cons_of_ne_nil nonempty
  rw [listed, List.intercalate_cons_cons, List.append_assoc]
  rfl

theorem listed_singleton (group : List JsonToken) : listed [group] = group :=
  List.intercalate_singleton

/-- A member of an object in tokens. -/
structure Member where
  key : String
  tokens : List JsonToken
  value : Json

namespace Member

/-- The key, a colon and the tokens of the value. -/
def group (member : Member) : List JsonToken :=
  .string member.key :: .colon :: member.tokens

def entry (member : Member) : String × Json :=
  (member.key, member.value)

end Member

/-- The tokens denote the value, and at most `room` of their brackets are open at once.  Of two
members with one key the later counts. -/
inductive Denotes : Nat → List JsonToken → Json → Prop where
  | null (room : Nat) : Denotes room [.null] .null
  | bool (room : Nat) (value : Bool) : Denotes room [.bool value] (.bool value)
  | number (room : Nat) (value : JsonNumber) : Denotes room [.number value] (.number value)
  | string (room : Nat) (value : String) : Denotes room [.string value] (.string value)
  | array {room : Nat} (elements : List (List JsonToken × Json))
      (each : ∀ element ∈ elements, Denotes room element.1 element.2) :
      Denotes (room + 1) (.openArray :: (listed (elements.map Prod.fst) ++ [.closeArray]))
        (.array (elements.map Prod.snd))
  | object {room : Nat} (members : List Member)
      (each : ∀ member ∈ members, Denotes room member.tokens member.value) :
      Denotes (room + 1) (.openObject :: (listed (members.map Member.group) ++ [.closeObject]))
        (.ofMembers (members.map Member.entry))

/-- Members are put into an object one after the other. -/
def insertAll (sorted : List (String × Json)) (members : List Member) : List (String × Json) :=
  (members.map Member.entry).foldl (fun sorted member => insertMember member.1 member.2 sorted)
    sorted

theorem insertAll_cons (sorted : List (String × Json)) (member : Member)
    (members : List Member) :
    insertAll sorted (member :: members) =
      insertAll (insertMember member.key member.value sorted) members :=
  rfl

theorem ofMembers_entries (members : List Member) :
    ofMembers (members.map Member.entry) = .object (insertAll [] members) :=
  rfl

namespace Machine

/-- From the tokens the machine hands the value to the frames, if there is room. -/
def HandsOver (room : Nat) (tokens : List JsonToken) (value : Json) : Prop :=
  ∀ {machine : Machine}, machine.AcceptsValue → machine.frames.length + room ≤ maxOpen →
    ∀ rest, machine.run (tokens ++ rest) = (deliver machine.frames value).run rest

theorem handsOver_token {room : Nat} {token : JsonToken} {value : Json}
    (notClosing : token ≠ .closeArray)
    (read : ∀ frames, readValue frames token = some (deliver frames value)) :
    HandsOver room [token] value := by
  intro machine accepts _ rest
  rw [List.singleton_append, run, accepts token notClosing, read, Option.bind_some]

theorem run_listed_elements {room : Nat} {elements : List (List JsonToken × Json)}
    (nonempty : elements ≠ []) (each : ∀ element ∈ elements, HandsOver room element.1 element.2)
    {frames : List Frame} (fits : frames.length + 1 + room ≤ maxOpen) (done : List Json)
    {awaiting : Awaiting} (accepts : AcceptsValue ⟨.array done :: frames, awaiting⟩)
    (rest : List JsonToken) :
    run ⟨.array done :: frames, awaiting⟩
        (listed (elements.map Prod.fst) ++ .closeArray :: rest) =
      (deliver frames (.array (done.reverse ++ elements.map Prod.snd))).run rest := by
  induction elements generalizing done awaiting with
  | nil => exact absurd rfl nonempty
  | cons element others induction =>
      have reversed : (element.2 :: done).reverse = done.reverse ++ [element.2] := by simp
      have head := each element List.mem_cons_self accepts fits
      cases others with
      | nil =>
          rw [List.map_singleton, List.map_singleton, listed_singleton, head, ← reversed]
          rfl
      | cons next others =>
          have tail := induction (by simp)
            (fun later member => each later (List.mem_cons_of_mem _ member))
            (element.2 :: done) (acceptsValue_value _)
          rw [reversed, List.append_assoc] at tail
          rw [List.map_cons, listed_cons (by simp), List.append_assoc, head]
          exact tail

theorem run_listed_members {room : Nat} {members : List Member} (nonempty : members ≠ [])
    (each : ∀ member ∈ members, HandsOver room member.tokens member.value)
    {frames : List Frame} (fits : frames.length + 1 + room ≤ maxOpen)
    (done : List (String × Json)) {machine : Machine}
    (accepts : ∀ key, machine.step (.string key) = some ⟨.object done key :: frames, .colon⟩)
    (rest : List JsonToken) :
    machine.run (listed (members.map Member.group) ++ .closeObject :: rest) =
      (deliver frames (.object (insertAll done members))).run rest := by
  induction members generalizing done machine with
  | nil => exact absurd rfl nonempty
  | cons member others induction =>
      have head := each member List.mem_cons_self
        (acceptsValue_value (.object done member.key :: frames)) fits
      have opened : ∀ following, machine.run (member.group ++ following) =
          run ⟨.object (insertMember member.key member.value done) member.key :: frames,
            .separator⟩ following := by
        intro following
        rw [Member.group, List.cons_append, run, accepts]
        exact head following
      rw [insertAll_cons]
      cases others with
      | nil =>
          rw [List.map_singleton, listed_singleton, opened]
          rfl
      | cons next others =>
          have keyed : ∀ key,
              step ⟨.object (insertMember member.key member.value done) member.key :: frames,
                .key (insertMember member.key member.value done)⟩ (.string key) =
              some ⟨.object (insertMember member.key member.value done) key :: frames, .colon⟩ :=
            fun _ => rfl
          have tail := induction (by simp)
            (fun later member => each later (List.mem_cons_of_mem _ member)) _ keyed
          rw [List.map_cons, listed_cons (by simp), List.append_assoc, opened]
          exact tail

end Machine

open Machine

theorem Denotes.handsOver {room : Nat} {tokens : List JsonToken} {value : Json}
    (denotes : Denotes room tokens value) : HandsOver room tokens value := by
  induction denotes with
  | null room => exact handsOver_token (by simp) fun _ => rfl
  | bool room value => exact handsOver_token (by simp) fun _ => rfl
  | number room value => exact handsOver_token (by simp) fun _ => rfl
  | string room value => exact handsOver_token (by simp) fun _ => rfl
  | @array room elements each induction =>
      intro machine accepts fits rest
      have opens : readValue machine.frames .openArray =
          some ⟨.array [] :: machine.frames, .valueOrClose⟩ := if_pos (by omega)
      rw [List.cons_append, List.append_assoc, List.singleton_append, run, accepts _ (by simp),
        opens, Option.bind_some]
      by_cases empty : elements = []
      · subst empty
        rfl
      · exact run_listed_elements empty induction (by omega) [] (acceptsValue_valueOrClose _) rest
  | @object room members each induction =>
      intro machine accepts fits rest
      have opens : readValue machine.frames .openObject =
          some ⟨.object [] "" :: machine.frames, .keyOrClose []⟩ := if_pos (by omega)
      rw [List.cons_append, List.append_assoc, List.singleton_append, run, accepts _ (by simp),
        opens, Option.bind_some]
      by_cases empty : members = []
      · subst empty
        rfl
      · exact run_listed_members empty induction (by omega) [] (fun _ => rfl) rest

namespace Machine

/-- The machine ends with the result when it has read the tokens. -/
def Accepts (machine : Machine) (tokens : List JsonToken) (result : Json) : Prop :=
  (machine.run tokens).bind result? = some result

variable {result : Json}

theorem Accepts.cons {machine : Machine} {token : JsonToken} {rest : List JsonToken}
    (accepts : machine.Accepts (token :: rest) result) :
    ∃ next, machine.step token = some next ∧ next.Accepts rest result := by
  rw [Accepts, run, Option.bind_assoc] at accepts
  exact Option.bind_eq_some_iff.mp accepts

theorem Accepts.exists_cons {machine : Machine} {tokens : List JsonToken}
    (accepts : machine.Accepts tokens result) (unfinished : machine.result? = none) :
    ∃ token rest next, tokens = token :: rest ∧ machine.step token = some next ∧
      next.Accepts rest result := by
  cases tokens with
  | nil =>
      have ended : machine.result? = some result := accepts
      rw [unfinished] at ended
      cases ended
  | cons token rest =>
      obtain ⟨next, stepped, later⟩ := accepts.cons
      exact ⟨token, rest, next, rfl, stepped, later⟩

/-- Where a value may stand, tokens that are accepted begin with a value, which is handed to
the frames. -/
def BeginsWithValue (tokens : List JsonToken) (result : Json) : Prop :=
  ∀ {frames : List Frame}, Accepts ⟨frames, .value⟩ tokens result →
    ∃ front value rest, tokens = front ++ rest ∧
      Denotes (maxOpen - frames.length) front value ∧
      (deliver frames value).Accepts rest result

/-- What is accepted inside an array are elements and the end of the array. -/
theorem elements_of_accepts {bound : Nat}
    (begins : ∀ tokens, tokens.length ≤ bound → BeginsWithValue tokens result)
    {frames : List Frame} {done : List Json} {tokens : List JsonToken}
    (short : tokens.length ≤ bound)
    (accepts : Accepts ⟨.array done :: frames, .value⟩ tokens result) :
    ∃ (elements : List (List JsonToken × Json)) (rest : List JsonToken), elements ≠ [] ∧
      tokens = listed (elements.map Prod.fst) ++ .closeArray :: rest ∧
      (∀ element ∈ elements, Denotes (maxOpen - (frames.length + 1)) element.1 element.2) ∧
      (deliver frames (.array (done.reverse ++ elements.map Prod.snd))).Accepts rest result := by
  -- The tokens behind an element and its comma are fewer.
  induction size : tokens.length using Nat.strongRecOn generalizing done tokens with
  | ind size induction =>
      obtain ⟨front, value, behind, rfl, denotes, later⟩ := begins tokens short accepts
      obtain ⟨token, rest, next, rfl, stepped, further⟩ := later.exists_cons rfl
      rw [List.length_append, List.length_cons] at size short
      cases token with
      | comma =>
          cases stepped
          obtain ⟨elements, left, nonempty, rfl, each, ended⟩ :=
            induction rest.length (by omega) (by omega) further rfl
          refine ⟨(front, value) :: elements, left, by simp, ?_, ?_, ?_⟩
          · rw [List.map_cons, listed_cons (by simpa using nonempty), List.append_assoc]
            rfl
          · exact List.forall_mem_cons.mpr ⟨denotes, each⟩
          · simpa using ended
      | closeArray =>
          cases stepped
          refine ⟨[(front, value)], rest, by simp, ?_, ?_, ?_⟩
          · rw [List.map_singleton, listed_singleton]
          · simpa using denotes
          · simpa using further
      | _ => cases stepped

/-- What is accepted inside an object are members and the end of the object. -/
theorem members_of_accepts {bound : Nat}
    (begins : ∀ tokens, tokens.length ≤ bound → BeginsWithValue tokens result)
    {frames : List Frame} {key : String} {done : List (String × Json)} {tokens : List JsonToken}
    (short : tokens.length ≤ bound)
    (accepts : Accepts ⟨.object done key :: frames, .key done⟩ tokens result) :
    ∃ (members : List Member) (rest : List JsonToken), members ≠ [] ∧
      tokens = listed (members.map Member.group) ++ .closeObject :: rest ∧
      (∀ member ∈ members,
        Denotes (maxOpen - (frames.length + 1)) member.tokens member.value) ∧
      (deliver frames (.object (insertAll done members))).Accepts rest result := by
  induction size : tokens.length using Nat.strongRecOn generalizing key done tokens with
  | ind size induction =>
      obtain ⟨token, rest, keyed, rfl, stepped, accepts⟩ := accepts.exists_cons rfl
      cases token with
      | string name =>
          cases stepped
          obtain ⟨token, rest, opened, rfl, stepped, accepts⟩ := accepts.exists_cons rfl
          cases token with
          | colon =>
              cases stepped
              rw [List.length_cons, List.length_cons] at size short
              obtain ⟨front, value, behind, rfl, denotes, later⟩ :=
                begins rest (by omega) accepts
              obtain ⟨token, rest, next, rfl, stepped, further⟩ := later.exists_cons rfl
              rw [List.length_append, List.length_cons] at size short
              cases token with
              | comma =>
                  cases stepped
                  obtain ⟨members, left, nonempty, rfl, each, ended⟩ :=
                    induction rest.length (by omega) (by omega) further rfl
                  refine ⟨⟨name, front, value⟩ :: members, left, by simp, ?_, ?_, ended⟩
                  · rw [List.map_cons, listed_cons (by simpa using nonempty), List.append_assoc]
                    rfl
                  · exact List.forall_mem_cons.mpr ⟨denotes, each⟩
              | closeObject =>
                  cases stepped
                  refine ⟨[⟨name, front, value⟩], rest, by simp, ?_, ?_, further⟩
                  · rw [List.map_singleton, listed_singleton]
                    rfl
                  · simpa using denotes
              | _ => cases stepped
          | _ => cases stepped
      | _ => cases stepped

theorem openFrame_some {frames : List Frame} {frame : Frame} {awaiting : Awaiting}
    {opened : Machine} (opens : openFrame frames frame awaiting = some opened) :
    opened = ⟨frame :: frames, awaiting⟩ ∧
      maxOpen - frames.length = maxOpen - (frames.length + 1) + 1 := by
  rw [openFrame] at opens
  split at opens
  · next room =>
      cases opens
      exact ⟨rfl, by omega⟩
  · cases opens

theorem accepts_valueOrClose {frames : List Frame} {tokens : List JsonToken}
    (accepts : Accepts ⟨frames, .valueOrClose⟩ tokens result) :
    (∃ rest, tokens = .closeArray :: rest) ∨ Accepts ⟨frames, .value⟩ tokens result := by
  obtain ⟨token, rest, next, rfl, stepped, later⟩ := accepts.exists_cons rfl
  by_cases closes : token = .closeArray
  · exact .inl ⟨rest, by rw [closes]⟩
  · right
    rwa [Accepts, run, acceptsValue_valueOrClose frames token closes] at accepts

theorem accepts_keyOrClose {frames : List Frame} {members : List (String × Json)}
    {tokens : List JsonToken} (accepts : Accepts ⟨frames, .keyOrClose members⟩ tokens result) :
    (∃ rest, tokens = .closeObject :: rest) ∨ Accepts ⟨frames, .key members⟩ tokens result := by
  obtain ⟨token, rest, next, rfl, stepped, later⟩ := accepts.exists_cons rfl
  cases token with
  | closeObject => exact .inl ⟨rest, rfl⟩
  | _ => exact .inr accepts

theorem array_of_accepts {bound : Nat}
    (begins : ∀ tokens, tokens.length ≤ bound → BeginsWithValue tokens result)
    {frames : List Frame} {room : Nat} (free : maxOpen - (frames.length + 1) = room)
    {tokens : List JsonToken} (short : tokens.length ≤ bound)
    (accepts : Accepts ⟨.array [] :: frames, .valueOrClose⟩ tokens result) :
    ∃ front value rest, .openArray :: tokens = front ++ rest ∧
      Denotes (room + 1) front value ∧ (deliver frames value).Accepts rest result := by
  rcases accepts_valueOrClose accepts with ⟨rest, rfl⟩ | inside
  · obtain ⟨next, stepped, later⟩ := accepts.cons
    cases stepped
    exact ⟨[.openArray, .closeArray], .array [], rest, rfl, .array [] (by simp), later⟩
  · obtain ⟨elements, rest, -, rfl, each, later⟩ := elements_of_accepts begins short inside
    rw [free] at each
    exact ⟨_, _, rest, by simp, .array elements each, later⟩

theorem object_of_accepts {bound : Nat}
    (begins : ∀ tokens, tokens.length ≤ bound → BeginsWithValue tokens result)
    {frames : List Frame} {room : Nat} (free : maxOpen - (frames.length + 1) = room)
    {tokens : List JsonToken} (short : tokens.length ≤ bound)
    (accepts : Accepts ⟨.object [] "" :: frames, .keyOrClose []⟩ tokens result) :
    ∃ front value rest, .openObject :: tokens = front ++ rest ∧
      Denotes (room + 1) front value ∧ (deliver frames value).Accepts rest result := by
  rcases accepts_keyOrClose accepts with ⟨rest, rfl⟩ | inside
  · obtain ⟨next, stepped, later⟩ := accepts.cons
    cases stepped
    exact ⟨[.openObject, .closeObject], .object [], rest, rfl, .object [] (by simp), later⟩
  · obtain ⟨members, rest, -, rfl, each, later⟩ := members_of_accepts begins short inside
    rw [free] at each
    exact ⟨_, _, rest, by simp, .object members each, later⟩

theorem beginsWithValue (tokens : List JsonToken) : BeginsWithValue tokens result := by
  induction size : tokens.length using Nat.strongRecOn generalizing tokens with
  | ind size induction =>
      intro frames accepts
      obtain ⟨token, rest, next, rfl, stepped, later⟩ := accepts.exists_cons rfl
      rw [List.length_cons] at size
      have begins : ∀ tokens, tokens.length ≤ rest.length → BeginsWithValue tokens result :=
        fun tokens short => induction tokens.length (by omega) tokens rfl
      cases token with
      | null =>
          cases stepped
          exact ⟨[.null], _, rest, rfl, .null _, later⟩
      | bool value =>
          cases stepped
          exact ⟨[.bool value], _, rest, rfl, .bool _ value, later⟩
      | number value =>
          cases stepped
          exact ⟨[.number value], _, rest, rfl, .number _ value, later⟩
      | string value =>
          cases stepped
          exact ⟨[.string value], _, rest, rfl, .string _ value, later⟩
      | openArray =>
          obtain ⟨rfl, room⟩ := openFrame_some stepped
          rw [room]
          exact array_of_accepts begins rfl le_rfl later
      | openObject =>
          obtain ⟨rfl, room⟩ := openFrame_some stepped
          rw [room]
          exact object_of_accepts begins rfl le_rfl later
      | _ => cases stepped

end Machine

/-- The tokens that are read are those that denote a value within the room of the machine. -/
theorem ofTokens?_eq_some_iff {tokens : List JsonToken} {value : Json} :
    ofTokens? tokens = some value ↔ Denotes Machine.maxOpen tokens value := by
  constructor
  · intro read
    have accepted : Machine.Accepts ⟨[], .value⟩ tokens value := read
    obtain ⟨front, inner, rest, rfl, denotes, ended⟩ := Machine.beginsWithValue tokens accepted
    cases rest with
    | nil =>
        obtain rfl : inner = value := Option.some.inj ended
        rwa [List.append_nil]
    | cons token rest =>
        obtain ⟨next, stepped, -⟩ := Machine.Accepts.cons ended
        cases stepped
  · intro denotes
    have ran := denotes.handsOver (Machine.acceptsValue_value []) (Nat.le_refl _) []
    rw [List.append_nil] at ran
    rw [ofTokens?, Machine.start, ran]
    rfl

/-- The tokens of the text denote the value, and no more than `127` of their brackets are open
at once. -/
def WrittenAs (value : Json) (text : String) : Prop :=
  ∃ tokens, JsonToken.scan? text = some tokens ∧ Denotes Machine.maxOpen tokens value

/-- A text is read as the value that it is a text of. -/
theorem parse?_eq_some_iff {text : String} {value : Json} :
    parse? text = some value ↔ value.WrittenAs text := by
  rw [parse?, Option.bind_eq_some_iff]
  simp only [ofTokens?_eq_some_iff, WrittenAs]

end Json

end Durable
