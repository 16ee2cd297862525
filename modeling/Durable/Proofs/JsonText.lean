import Durable.Json.Text
import Durable.Proofs.TokenText

/-!
# JSON values from their texts

A value is read again from its text exactly if its brackets are nested no deeper than the
machine may keep frames.  The tokens of a value hand the value to the innermost open frame,
whatever frames are open around it; what follows in the text decides nothing about it.
-/

namespace Durable

namespace JsonNumber

/-- An integer of at most 64 bits, or a double that comes back from its text. -/
def Sound : JsonNumber → Prop
  | .integer value => -(Nat.pow 2 63 : Int) ≤ value ∧ value < (Nat.pow 2 64 : Int)
  | .double value => (JsonNumber.double value).Readable

theorem Sound.readable {number : JsonNumber} (sound : number.Sound) : number.Readable := by
  cases number with
  | integer value => exact ofText?_integer sound.1 sound.2
  | double value => exact sound

end JsonNumber

namespace Json

/-- A value whose numbers are sound, and whose objects have their members in ascending order
of their keys. -/
inductive Sound : Json → Prop where
  | null : Sound .null
  | bool (value : Bool) : Sound (.bool value)
  | number (value : JsonNumber) (sound : value.Sound) : Sound (.number value)
  | string (value : String) : Sound (.string value)
  | array (elements : List Json) (each : ∀ element ∈ elements, Sound element) :
      Sound (.array elements)
  | object (members : List (String × Json)) (each : ∀ member ∈ members, Sound member.2)
      (ascending : members.Pairwise fun first second => first.1 < second.1) :
      Sound (.object members)

/-- How many brackets are open at most inside the text of the value. -/
def depth : Json → Nat
  | .array elements => 1 + elementsDepth elements
  | .object members => 1 + membersDepth members
  | _ => 0
where
  elementsDepth : List Json → Nat
    | [] => 0
    | value :: rest => max value.depth (elementsDepth rest)
  membersDepth : List (String × Json) → Nat
    | [] => 0
    | (_, value) :: rest => max value.depth (membersDepth rest)

theorem insertMember_last {key : String} {members : List (String × Json)}
    (greater : ∀ member ∈ members, member.1 < key) (value : Json) :
    insertMember key value members = members ++ [(key, value)] := by
  induction members with
  | nil => rfl
  | cons head rest induction =>
      obtain ⟨other, kept⟩ := head
      have less : other < key := greater (other, kept) List.mem_cons_self
      have notLess : ¬key < other := String.lt_asymm less
      have different : key ≠ other := by
        rintro rfl
        exact String.lt_irrefl _ less
      have later := induction fun member inRest => greater member (List.mem_cons_of_mem _ inRest)
      simp only [insertMember, notLess, if_false, different, later, List.cons_append]

theorem foldl_insertMember {done members : List (String × Json)}
    (ascending : (done ++ members).Pairwise fun first second => first.1 < second.1) :
    members.foldl (fun sorted member => insertMember member.1 member.2 sorted) done =
      done ++ members := by
  induction members generalizing done with
  | nil => simp
  | cons member others induction =>
      have greater : ∀ earlier ∈ done, earlier.1 < member.1 := fun earlier inDone =>
        (List.pairwise_append.mp ascending).2.2 earlier inDone member List.mem_cons_self
      rw [List.foldl_cons, insertMember_last greater, induction (by simpa using ascending),
        List.append_assoc, List.singleton_append]

theorem ofMembers_ascending {members : List (String × Json)}
    (ascending : members.Pairwise fun first second => first.1 < second.1) :
    ofMembers members = .object members :=
  congrArg Json.object (@foldl_insertMember [] members ascending)

namespace Machine

/-- The machine is ready for a value. -/
def AcceptsValue (machine : Machine) : Prop :=
  ∀ token, token ≠ .closeArray → machine.step token = readValue machine.frames token

/-- Tokens that hand a value to the frames, as long as there is room for its brackets. -/
def Yields (tokens : List JsonToken) (value : Json) : Prop :=
  ∀ {machine : Machine}, machine.AcceptsValue → machine.frames.length ≤ maxOpen →
    ∀ rest, machine.run (tokens ++ rest) =
      if machine.frames.length + value.depth ≤ maxOpen then
        (deliver machine.frames value).run rest
      else none

theorem acceptsValue_value (frames : List Frame) : AcceptsValue ⟨frames, .value⟩ :=
  fun _ _ => rfl

theorem acceptsValue_valueOrClose (frames : List Frame) : AcceptsValue ⟨frames, .valueOrClose⟩ := by
  intro token different
  cases token <;> first | rfl | exact absurd rfl different

theorem yields_token {token : JsonToken} {value : Json} (notClosing : token ≠ .closeArray)
    (flat : value.depth = 0)
    (read : ∀ frames, readValue frames token = some (deliver frames value)) :
    Yields [token] value := by
  intro machine accepts room rest
  rw [List.singleton_append, run, accepts token notClosing, read, flat, Nat.add_zero,
    if_pos room, Option.bind_some]

theorem elementTokens_cons_cons (element next : Json) (others : List Json) :
    tokens.elementTokens (element :: next :: others) =
      element.tokens ++ .comma :: tokens.elementTokens (next :: others) := by
  rw [tokens.elementTokens]
  simp

theorem memberTokens_cons_cons (key : String) (value : Json) (next : String × Json)
    (others : List (String × Json)) :
    tokens.memberTokens ((key, value) :: next :: others) =
      .string key :: .colon :: (value.tokens ++ .comma :: tokens.memberTokens (next :: others)) := by
  rw [tokens.memberTokens]
  simp

/-- The elements of an array are read one by one. -/
theorem run_elements {elements : List Json} (nonempty : elements ≠ [])
    (each : ∀ element ∈ elements, Yields element.tokens element) {frames : List Frame}
    (room : frames.length < maxOpen) (done : List Json) {awaiting : Awaiting}
    (accepts : AcceptsValue ⟨.array done :: frames, awaiting⟩) (rest : List JsonToken) :
    run ⟨.array done :: frames, awaiting⟩
        (tokens.elementTokens elements ++ .closeArray :: rest) =
      if frames.length + 1 + depth.elementsDepth elements ≤ maxOpen then
        (deliver frames (.array (done.reverse ++ elements))).run rest
      else none := by
  induction elements generalizing done awaiting with
  | nil => exact absurd rfl nonempty
  | cons element others induction =>
      have reversed : (element :: done).reverse = done.reverse ++ [element] := by simp
      have fits : (Frame.array done :: frames).length ≤ maxOpen := room
      have head := each element List.mem_cons_self accepts fits
      rw [List.length_cons] at head
      cases others with
      | nil =>
          rw [tokens.elementTokens, head, depth.elementsDepth, depth.elementsDepth, Nat.max_zero,
            ← reversed]
          rfl
      | cons next others =>
          have tail := induction (by simp)
            (fun later member => each later (List.mem_cons_of_mem _ member))
            (element :: done) (acceptsValue_value _)
          have further : run (deliver (.array done :: frames) element)
              (.comma :: (tokens.elementTokens (next :: others) ++ .closeArray :: rest)) =
              run ⟨.array (element :: done) :: frames, .value⟩
                (tokens.elementTokens (next :: others) ++ .closeArray :: rest) := rfl
          rw [elementTokens_cons_cons, List.append_assoc, List.cons_append, head, further, tail,
            reversed, List.append_assoc, List.singleton_append, ← ite_and]
          rw [depth.elementsDepth.eq_2 element]
          exact if_congr (by omega) rfl rfl

/-- The members of an object are read one by one, and each is put in the place of its key. -/
theorem run_members {members : List (String × Json)} (nonempty : members ≠ [])
    (each : ∀ member ∈ members, Yields member.2.tokens member.2) {frames : List Frame}
    (room : frames.length < maxOpen) (done : List (String × Json)) {machine : Machine}
    (accepts : ∀ key, machine.step (.string key) = some ⟨.object done key :: frames, .colon⟩)
    (rest : List JsonToken) :
    machine.run (tokens.memberTokens members ++ .closeObject :: rest) =
      if frames.length + 1 + depth.membersDepth members ≤ maxOpen then
        (deliver frames (.object (members.foldl
          (fun sorted member => insertMember member.1 member.2 sorted) done))).run rest
      else none := by
  induction members generalizing done machine with
  | nil => exact absurd rfl nonempty
  | cons member others induction =>
      obtain ⟨key, value⟩ := member
      have fits : (Frame.object done key :: frames).length ≤ maxOpen := room
      have head := each (key, value) List.mem_cons_self
        (acceptsValue_value (.object done key :: frames)) fits
      simp only [List.length_cons, deliver] at head
      have opened : ∀ following, machine.run (.string key :: .colon :: following) =
          run ⟨.object done key :: frames, .value⟩ following := by
        intro following
        rw [run, accepts]
        rfl
      cases others with
      | nil =>
          rw [tokens.memberTokens, List.cons_append, List.cons_append, opened, head,
            depth.membersDepth, depth.membersDepth, Nat.max_zero]
          rfl
      | cons next others =>
          let placed := insertMember key value done
          have nextKey : ∀ later, step ⟨.object placed key :: frames, .key placed⟩
              (.string later) = some ⟨.object placed later :: frames, .colon⟩ := fun _ => rfl
          have tail := induction (by simp)
            (fun later member => each later (List.mem_cons_of_mem _ member)) placed nextKey
          have further : run ⟨.object placed key :: frames, .separator⟩
              (.comma :: (tokens.memberTokens (next :: others) ++ .closeObject :: rest)) =
              run ⟨.object placed key :: frames, .key placed⟩
                (tokens.memberTokens (next :: others) ++ .closeObject :: rest) := rfl
          rw [memberTokens_cons_cons, List.cons_append, List.cons_append, List.append_assoc,
            List.cons_append, opened, head, further, tail, ← ite_and]
          rw [depth.membersDepth.eq_2 key value]
          exact if_congr (by omega) rfl rfl

/-- Members in any order are read as the object that has them, if there is room. -/
theorem run_object {members : List (String × Json)}
    (each : ∀ member ∈ members, Yields member.2.tokens member.2) {machine : Machine}
    (accepts : machine.AcceptsValue) (room : machine.frames.length ≤ maxOpen)
    (rest : List JsonToken) :
    machine.run ((Json.object members).tokens ++ rest) =
      if machine.frames.length + (Json.object members).depth ≤ maxOpen then
        (deliver machine.frames (.ofMembers members)).run rest
      else none := by
  rw [tokens, List.cons_append, List.append_assoc, List.singleton_append, run,
    accepts _ (by simp), depth, ← Nat.add_assoc]
  by_cases free : machine.frames.length < maxOpen
  · have opens : readValue machine.frames .openObject =
        some ⟨.object [] "" :: machine.frames, .keyOrClose []⟩ := if_pos free
    rw [opens, Option.bind_some]
    by_cases empty : members = []
    · subst empty
      rw [depth.membersDepth, Nat.add_zero, if_pos (Nat.succ_le_of_lt free)]
      rfl
    · exact run_members empty each free [] (fun _ => rfl) rest
  · have full : readValue machine.frames .openObject = none := if_neg free
    rw [full, if_neg (by omega)]
    rfl

end Machine

open Machine

/-- The tokens of a value give the value, as long as there is room for its brackets. -/
theorem Sound.yields {value : Json} (sound : value.Sound) :
    Machine.Yields value.tokens value := by
  induction sound with
  | null => exact Machine.yields_token (by simp) rfl fun _ => rfl
  | bool value => exact Machine.yields_token (by simp) rfl fun _ => rfl
  | number value sound => exact Machine.yields_token (by simp) rfl fun _ => rfl
  | string value => exact Machine.yields_token (by simp) rfl fun _ => rfl
  | array elements each induction =>
      intro machine accepts room rest
      rw [tokens, List.cons_append, List.append_assoc, List.singleton_append, run,
        accepts _ (by simp), depth, ← Nat.add_assoc]
      by_cases free : machine.frames.length < maxOpen
      · have opens : readValue machine.frames .openArray =
            some ⟨.array [] :: machine.frames, .valueOrClose⟩ := if_pos free
        rw [opens, Option.bind_some]
        by_cases empty : elements = []
        · subst empty
          rw [depth.elementsDepth, Nat.add_zero, if_pos (Nat.succ_le_of_lt free)]
          rfl
        · exact run_elements empty induction free [] (acceptsValue_valueOrClose _) rest
      · have full : readValue machine.frames .openArray = none := if_neg free
        rw [full, if_neg (by omega)]
        rfl
  | object members each ascending induction =>
      intro machine accepts room rest
      rw [run_object induction accepts room, ofMembers_ascending ascending]

/-- Tokens that come back from their texts, one behind another. -/
structure Spelled (tokens : List JsonToken) : Prop where
  readable : ∀ token ∈ tokens, token.Readable
  apart : JsonToken.Apart tokens

namespace Spelled

theorem nil : Spelled [] :=
  ⟨by simp, .nil⟩

theorem singleton {token : JsonToken} (readable : token.Readable) : Spelled [token] :=
  ⟨by simpa using readable, .singleton token⟩

theorem between {front back : List JsonToken} {token : JsonToken} (spelled : Spelled front)
    (readable : token.Readable) (noNumber : token.isNumber = false) (later : Spelled back) :
    Spelled (front ++ token :: back) := by
  constructor
  · intro other member
    rcases List.mem_append.mp member with before | after
    · exact spelled.readable other before
    · rcases List.mem_cons.mp after with rfl | behind
      · exact readable
      · exact later.readable other behind
  · refine List.isChain_append.mpr ⟨spelled.apart, List.isChain_cons.mpr ⟨?_, later.apart⟩, ?_⟩
    · intro next _ number
      rw [noNumber] at number
      cases number
    · intro last _ next member _
      rw [List.head?_cons, Option.mem_some_iff] at member
      rw [← member]
      exact noNumber

theorem cons {token : JsonToken} {back : List JsonToken} (readable : token.Readable)
    (noNumber : token.isNumber = false) (later : Spelled back) : Spelled (token :: back) :=
  nil.between readable noNumber later

theorem elements {elements : List Json} (each : ∀ element ∈ elements, Spelled element.tokens) :
    Spelled (tokens.elementTokens elements) := by
  induction elements with
  | nil => exact nil
  | cons element others induction =>
      have head := each element List.mem_cons_self
      have tail := induction fun later member => each later (List.mem_cons_of_mem _ member)
      cases others with
      | nil =>
          rw [tokens.elementTokens]
          exact head
      | cons next others =>
          rw [elementTokens_cons_cons]
          exact head.between trivial rfl tail

theorem members {members : List (String × Json)}
    (each : ∀ member ∈ members, Spelled member.2.tokens) :
    Spelled (tokens.memberTokens members) := by
  induction members with
  | nil => exact nil
  | cons member others induction =>
      obtain ⟨key, value⟩ := member
      have head := each (key, value) List.mem_cons_self
      have tail := induction fun later member => each later (List.mem_cons_of_mem _ member)
      cases others with
      | nil =>
          rw [tokens.memberTokens]
          exact .cons trivial rfl (.cons trivial rfl head)
      | cons next others =>
          rw [memberTokens_cons_cons]
          exact .cons trivial rfl (.cons trivial rfl (head.between trivial rfl tail))

end Spelled

theorem Sound.spelled {value : Json} (sound : value.Sound) : Spelled value.tokens := by
  induction sound with
  | null => exact .singleton trivial
  | bool value => exact .singleton trivial
  | number value sound => exact .singleton sound.readable
  | string value => exact .singleton trivial
  | array elements each induction =>
      rw [tokens]
      exact .cons trivial rfl ((Spelled.elements induction).between trivial rfl .nil)
  | object members each ascending induction =>
      rw [tokens]
      exact .cons trivial rfl ((Spelled.members induction).between trivial rfl .nil)

theorem scan?_render {value : Json} (spelled : Spelled value.tokens) :
    JsonToken.scan? value.render = some value.tokens := by
  rw [JsonToken.scan?, render, String.toList_ofList]
  exact JsonToken.scanAll_flatMap spelled.readable spelled.apart (Nat.lt_succ_self _)

theorem parse?_of_run {written value : Json} (spelled : Spelled written.tokens)
    (ran : Machine.start.run (written.tokens ++ []) =
      if 0 + written.depth ≤ Machine.maxOpen then (deliver [] value).run [] else none) :
    parse? written.render =
      if written.depth ≤ Machine.maxOpen then some value else none := by
  rw [List.append_nil, Nat.zero_add] at ran
  rw [parse?, scan?_render spelled, Option.bind_some, ofTokens?, ran]
  by_cases shallow : written.depth ≤ Machine.maxOpen
  · rw [if_pos shallow, if_pos shallow]
    rfl
  · rw [if_neg shallow, if_neg shallow]
    rfl

/-- A value is read again from its text, unless its brackets are nested too deeply. -/
theorem Sound.parse?_render {value : Json} (sound : value.Sound) :
    parse? value.render = if value.depth ≤ Machine.maxOpen then some value else none := by
  apply parse?_of_run sound.spelled
  exact sound.yields (Machine.acceptsValue_value []) (Nat.zero_le _) []

/-- So are members in any order; of two with one key the later counts. -/
theorem parse?_render_members {members : List (String × Json)}
    (sound : ∀ member ∈ members, member.2.Sound) :
    parse? (Json.object members).render =
      if (Json.object members).depth ≤ Machine.maxOpen then some (.ofMembers members)
      else none := by
  have written : Spelled (tokens.memberTokens members) :=
    Spelled.members fun member inMembers => (sound member inMembers).spelled
  have spelled : Spelled (Json.object members).tokens := by
    rw [tokens]
    exact .cons trivial rfl (written.between trivial rfl .nil)
  apply parse?_of_run spelled
  apply run_object
  · exact fun member inMembers => (sound member inMembers).yields
  · exact Machine.acceptsValue_value []
  · exact Nat.zero_le _

end Json

end Durable
