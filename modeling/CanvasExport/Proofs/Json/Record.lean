/-
Module: CanvasExport.Proofs.Json.Record
Layer: Proofs
Purpose: Objects and records read from their texts. The members of an object are handled one after the other, each
  changing what was gathered so far; a record whose fields read the given values is read from any text of an
  object that holds some of its members, in any order, and keeps what it held in the fields that are not there.
Main exports: Json.Handles, Json.readMembers_of_handles, Json.Merges, Json.ReadsField, Json.Document,
  Json.parse_of_reads, Json.Selects, Json.parse_readRecord
-/
import CanvasExport.Proofs.Json.Reading

namespace CanvasExport.Json

variable {σ : Type}

/-! ### Members -/

theorem readColon_of_blanks {before : Text} (hbefore : Blanks before) (t : Text) :
    readColon (before ++ ':' :: t) = .ok ((), t) := by
  rw [readColon, bind_of_eq_ok (peekToken_of_blanks hbefore rfl)]
  rfl

theorem nextKey?_end (first : Bool) {blanks : Text} (hblanks : Blanks blanks) (rest : Text) :
    nextKey? first (blanks ++ '\x7d' :: rest) = .ok (none, '\x7d' :: rest) := by
  rw [nextKey?, bind_of_eq_ok (peekToken_of_blanks hblanks rfl)]
  rfl

theorem nextKey?_key {first : Bool} {separator above : Text} (hseparator : Separator first separator)
    (habove : Blanks above) (key below : Text) :
    nextKey? first (separator ++ (above ++ (Text.literal key ++ below))) = .ok (some key, below) := by
  have hliteral : Text.literal key ++ below = '"' :: (Text.escaped key ++ '"' :: below) := by
    simp [Text.literal]
  have hkey : readString (Text.escaped key ++ '"' :: below) = .ok (key, below) := stringBody_escaped key below
  have hquote := @peekToken_of_blanks above (Text.escaped key ++ '"' :: below) '"' habove rfl
  rw [hliteral]
  cases hseparator with
  | none =>
      rw [List.nil_append, nextKey?, bind_of_eq_ok hquote]
      simp only [if_true]
      rw [bind_of_eq_ok (skip_cons _ _), bind_of_eq_ok hkey]
      rfl
  | @comma blanks hblanks =>
      rw [List.append_assoc, List.singleton_append, nextKey?, bind_of_eq_ok (peekToken_of_blanks hblanks rfl)]
      refine (bind_of_eq_ok (skip_cons ',' _)).trans ?_
      rw [bind_of_eq_ok hquote]
      simp only
      rw [bind_of_eq_ok (skip_cons _ _), bind_of_eq_ok hkey]
      rfl

/-- The reader of a member takes the colon and any text of the value. -/
def ReadsMember (read : Reader σ) (value : Json) (s : σ) : Prop :=
  ∀ before v rest, Blanks before → Written value v → Ends numeralChar rest →
    read (before ++ ':' :: (v ++ rest)) = .ok (s, rest)

/-- A reader of members goes from one state to another over the given members. -/
inductive Handles (member : σ → Text → Reader σ) : σ → List (Text × Json) → σ → Prop
  | nil (s : σ) : Handles member s [] s
  | cons {start next finish : σ} {key : Text} {value : Json} {rest : List (Text × Json)}
      (h : ReadsMember (member start key) value next) (hrest : Handles member next rest finish) :
      Handles member start ((key, value) :: rest) finish

/-- Numbers end at blanks. -/
theorem numeralChar_of_isBlank {c : Char} (h : isBlank c = true) : numeralChar c = false := by
  simp only [isBlank, Bool.or_eq_true, beq_iff_eq] at h
  rcases h with ((rfl | rfl) | rfl) | rfl <;> decide

theorem ends_of_blanks {blanks : Text} {c : Char} (hblanks : Blanks blanks) (hc : numeralChar c = false) (t : Text) :
    Ends numeralChar (blanks ++ c :: t) := by
  cases blanks with
  | nil => exact ends_cons.2 hc
  | cons d blanks => exact ends_cons.2 (numeralChar_of_isBlank (WrittenIn.cons_iff.1 hblanks).1)

/-- What follows a value in an object cannot belong to a number. -/
theorem ends_of_writtenMembers {members : List (Text × Json)} {t : Text} (h : WrittenMembers false members t)
    (rest : Text) : Ends numeralChar (t ++ rest) := by
  cases h with
  | nil hblanks => simpa using ends_of_blanks hblanks (by decide) rest
  | cons hseparator =>
      cases hseparator with
      | comma hblanks => simpa using ends_of_blanks hblanks (by decide) _

/-- Every member takes characters. -/
theorem length_lt_of_writtenMembers {first : Bool} {members : List (Text × Json)} {t : Text}
    (h : WrittenMembers first members t) : members.length < t.length := by
  induction members generalizing first t with
  | nil =>
      cases h
      simp
  | cons member members ih =>
      cases h with
      | cons _ _ _ _ hrest =>
          have hlength := ih hrest
          simp only [List.length_append, List.length_cons]
          omega

theorem readMembersFrom_of_handles {member : σ → Text → Reader σ} {start finish : σ}
    {members : List (Text × Json)} (h : Handles member start members finish) {first : Bool} {fuel : Nat} {t : Text}
    (ht : WrittenMembers first members t) (hfuel : members.length < fuel) (rest : Text) :
    readMembersFrom member fuel first start (t ++ rest) = .ok (finish, rest) := by
  -- By the members that are handled: each leaves a shorter list for what is left of the fuel, and the text behind it
  -- starts with the comma or the brace that the reader looks for next.
  induction h generalizing first fuel t with
  | nil s =>
      obtain ⟨fuel, rfl⟩ := Nat.exists_eq_add_one_of_ne_zero (Nat.ne_of_gt hfuel)
      cases ht with
      | nil hblanks =>
          have hend := nextKey?_end first hblanks rest
          rw [List.append_assoc, List.singleton_append, readMembersFrom, bind_of_eq_ok hend]
          rfl
  | @cons start next finish key value members hmember _ ih =>
      obtain ⟨fuel, rfl⟩ := Nat.exists_eq_add_one_of_ne_zero (Nat.ne_of_gt (Nat.zero_lt_of_lt hfuel))
      cases ht with
      | @cons _ separator above before v t _ _ _ hseparator habove hbefore hvalue hrest =>
          have hkey := nextKey?_key hseparator habove key (before ++ ':' :: (v ++ (t ++ rest)))
          have hread := hmember before v (t ++ rest) hbefore hvalue (ends_of_writtenMembers hrest rest)
          simp only [List.append_assoc, List.cons_append] at hkey ⊢
          rw [readMembersFrom, bind_of_eq_ok hkey]
          simp only
          rw [bind_of_eq_ok hread]
          exact ih hrest (Nat.lt_of_succ_lt_succ hfuel)

theorem readMembers_of_handles {member : σ → Text → Reader σ} {start finish : σ} {members : List (Text × Json)}
    (h : Handles member start members finish) {t : Text} (ht : WrittenMembers true members t) (rest : Text) :
    readMembers member start (t ++ rest) = .ok (finish, rest) := by
  have hget : (get : Reader Text) (t ++ rest) = .ok (t ++ rest, t ++ rest) := rfl
  have hlength := length_lt_of_writtenMembers ht
  rw [readMembers, bind_of_eq_ok hget]
  exact readMembersFrom_of_handles h ht (by simp only [List.length_append]; omega) rest

/-! ### Records -/

/-- The function takes the named fields of one record into another, where all other fields stay. -/
structure Merges (merge : List Text → σ → σ) : Prop where
  nil (s : σ) : merge [] s = s
  cons (name : Text) (names : List Text) (s : σ) : merge names (merge [name] s) = merge (name :: names) s

/-- A field that is taken for one more name. -/
theorem ite_mem_cons {α : Type} (field name : Text) (names : List Text) (kept base : α) :
    (if field ∈ names then kept else if field ∈ [name] then kept else base)
      = if field ∈ name :: names then kept else base := by
  by_cases hlater : field ∈ names <;> by_cases hfirst : field = name <;> simp [hlater, hfirst]

/-- The member's value is read by the field of that name, and taken into the record. -/
def ReadsField (fields : List (Field σ)) (merge : List Text → σ → σ) (member : Text × Json) : Prop :=
  ∃ field, fields.find? (fun field => field.name = member.1) = some field
    ∧ ∀ s, Reads (field.read s) member.2 (merge [member.1] s)

variable {fields : List (Field σ)} {merge : List Text → σ → σ}

theorem readsMember_readField {member : Text × Json} (h : ReadsField fields merge member) (s : σ) {seen : List Text}
    (hseen : member.1 ∉ seen) :
    ReadsMember (readField fields (s, seen) member.1) member.2 (merge [member.1] s, member.1 :: seen) := by
  obtain ⟨field, hfind, hreads⟩ := h
  intro before v rest hbefore hvalue hrest
  have hnew : seen.contains member.1 = false := by simpa using hseen
  simp only [readField, hfind, hnew, Bool.false_eq_true, if_false]
  rw [bind_of_eq_ok (readColon_of_blanks hbefore _), bind_of_eq_ok (hreads s v rest hvalue hrest)]
  rfl

/-- Members with different names are taken into the record one after the other. -/
theorem handles_readField (hmerge : Merges merge) {members : List (Text × Json)}
    (h : ∀ member ∈ members, ReadsField fields merge member) (hnames : (members.map Prod.fst).Nodup) (s : σ)
    {seen : List Text} (hseen : ∀ member ∈ members, member.1 ∉ seen) :
    ∃ finish, Handles (readField fields) (s, seen) members (merge (members.map Prod.fst) s, finish) := by
  induction members generalizing s seen with
  | nil => exact ⟨seen, by rw [List.map_nil, hmerge.nil]; exact .nil _⟩
  | cons member members ih =>
      rw [List.forall_mem_cons] at h hseen
      rw [List.map_cons, List.nodup_cons] at hnames
      have hlater : ∀ later ∈ members, later.1 ∉ member.1 :: seen := by
        intro later hmem hin
        rcases List.mem_cons.1 hin with hsame | hin
        · exact hnames.1 (hsame ▸ List.mem_map_of_mem hmem)
        · exact hseen.2 later hmem hin
      -- The names read so far only matter for a name that comes again, and none does.
      obtain ⟨finish, hrest⟩ := ih h.2 hnames.2 (merge [member.1] s) hlater
      rw [hmerge.cons] at hrest
      exact ⟨finish, .cons (readsMember_readField h.1 s hseen.1) hrest⟩

theorem reads_readRecord (hmerge : Merges merge) (wanted : Text) {members : List (Text × Json)}
    (h : ∀ member ∈ members, ReadsField fields merge member) (hnames : (members.map Prod.fst).Nodup) (s : σ) :
    Reads (readRecord wanted fields s) (.object members) (merge (members.map Prod.fst) s) := by
  intro t rest ht _
  have hfresh : ∀ member ∈ members, member.1 ∉ ([] : List Text) := fun _ _ => List.not_mem_nil
  obtain ⟨finish, hhandles⟩ := handles_readField hmerge h hnames s hfresh
  cases ht with
  | @object blanks hblanks _ t hmembers =>
      have hvalue := @peekValue_of_blanks blanks (t ++ rest) '\x7b' hblanks rfl
      rw [List.append_assoc, List.cons_append, readRecord, bind_of_eq_ok hvalue]
      simp only
      rw [bind_of_eq_ok (skip_cons _ _), bind_of_eq_ok (readMembers_of_handles hhandles hmembers rest)]
      rfl

/-! ### Whole texts -/

/-- A text of the value with blanks behind it. -/
def Document (j : Json) (t : Text) : Prop :=
  ∃ v blanks, Written j v ∧ Blanks blanks ∧ t = v ++ blanks

theorem document_compact (j : Json) : Document j j.compact :=
  ⟨j.compact, [], written_compact j, .nil, (List.append_nil _).symm⟩

theorem document_indented (j : Json) : Document j (j.indented 0) :=
  ⟨j.indented 0, [], written_indented 0 j, .nil, (List.append_nil _).symm⟩

theorem ends_blanks {blanks : Text} (h : Blanks blanks) : Ends numeralChar blanks := by
  cases blanks with
  | nil => exact ends_nil
  | cons c blanks => exact ends_cons.2 (numeralChar_of_isBlank (WrittenIn.cons_iff.1 h).1)

/-- What a reader reads from the texts of a value is what a document of the value parses to. -/
theorem parse_of_reads {α : Type} {read : Reader α} {j : Json} {a : α} (h : Reads read j a) {t : Text}
    (ht : Document j t) : parse read t = .ok a := by
  obtain ⟨v, blanks, hv, hblanks, rfl⟩ := ht
  have hread := h v blanks hv (ends_blanks hblanks)
  unfold parse
  simp only
  rw [bind_of_eq_ok hread, bind_of_eq_ok (peekToken_end hblanks)]
  rfl

/-- The members of an object; other values have none. -/
def members : Json → List (Text × Json)
  | .object members => members
  | _ => []

/-- The members are some of those of the object, each key once, in any order. -/
structure Selects (members : List (Text × Json)) (j : Json) : Prop where
  subset : ∀ member ∈ members, member ∈ j.members
  distinct : (members.map Prod.fst).Nodup

/-- A document with some members of a record's object parses to the record that takes their fields. -/
theorem parse_readRecord (hmerge : Merges merge) (wanted : Text) {j : Json}
    (hfields : ∀ member ∈ j.members, ReadsField fields merge member) (s : σ) {members : List (Text × Json)}
    (hselects : Selects members j) {t : Text} (ht : Document (.object members) t) :
    parse (readRecord wanted fields s) t = .ok (merge (members.map Prod.fst) s) :=
  parse_of_reads (reads_readRecord hmerge wanted (fun member hmem => hfields member (hselects.subset member hmem))
    hselects.distinct s) ht

end CanvasExport.Json
