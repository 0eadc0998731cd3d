/-
Module: CanvasExport.Proofs.Json.Reading
Layer: Proofs
Purpose: Reading what was written. A reader reads a value if it takes any text of that value and stops right
  behind it; the readers of strings, truth values, words and choices do. A literal is read back character by
  character, a numeral up to the first character that cannot belong to it.
Main exports: Json.Reads, Json.Reads.map, Json.stringBody_escaped, Json.readNumeral_numeral, Json.reads_readText,
  Json.reads_readBool, Json.reads_readWord, Json.reads_readChoice
-/
import CanvasExport.Json.Record
import CanvasExport.Proofs.Json.Written
import CanvasExport.Proofs.Text.Numeral

namespace CanvasExport.Json

/-- The characters that a number may go on with. -/
def numeralChar (c : Char) : Bool :=
  c.isDigit || c == '.' || c == 'e' || c == 'E'

/-- The reader takes any text of the value and gives what the value stands for. -/
def Reads {α : Type} (read : Reader α) (j : Json) (a : α) : Prop :=
  ∀ t rest, Written j t → Ends numeralChar rest → read (t ++ rest) = .ok (a, rest)

/-- A reader after another one reads what that one left. -/
theorem bind_of_eq_ok {α β : Type} {read : Reader α} {next : α → Reader β} {t rest : Text} {a : α}
    (h : read t = .ok (a, rest)) : (read >>= next) t = next a rest := by
  change StateT.bind read next t = next a rest
  simp only [StateT.bind, h]
  rfl

/-- What is read may be put into something else. -/
theorem Reads.map {α β : Type} {read : Reader α} {j : Json} {a : α} (h : Reads read j a) (f : α → β) :
    Reads (do return f (← read)) j (f a) := by
  intro t rest ht hrest
  rw [bind_of_eq_ok (h t rest ht hrest)]
  rfl

/-! ### Tokens -/

theorem peekToken_eq (t : Text) :
    peekToken t = .ok ((t.dropWhile isBlank).head?, t.dropWhile isBlank) :=
  rfl

theorem peekToken_of_blanks {blanks t : Text} {c : Char} (hblanks : Blanks blanks) (hc : isBlank c = false) :
    peekToken (blanks ++ c :: t) = .ok (some c, c :: t) := by
  have hrest : (blanks ++ c :: t).dropWhile isBlank = c :: t := by
    rw [← drop_takeWhile_length, takeWhile_append_of_ends hblanks (ends_cons.2 hc), List.drop_left]
  rw [peekToken_eq, hrest]
  rfl

theorem peekToken_end {blanks : Text} (hblanks : Blanks blanks) : peekToken blanks = .ok (none, []) := by
  have hrun := takeWhile_append_of_ends hblanks (@ends_nil isBlank)
  rw [List.append_nil] at hrun
  have hrest : blanks.dropWhile isBlank = [] := by
    rw [← drop_takeWhile_length, hrun, List.drop_length]
  rw [peekToken_eq, hrest]
  rfl

theorem peekValue_of_blanks {blanks t : Text} {c : Char} (hblanks : Blanks blanks) (hc : isBlank c = false) :
    peekValue (blanks ++ c :: t) = .ok (c, c :: t) := by
  rw [peekValue, bind_of_eq_ok (peekToken_of_blanks hblanks hc)]
  rfl

theorem skip_cons (c : Char) (t : Text) : skip (c :: t) = .ok ((), t) :=
  rfl

theorem readKeyword_append (letters t : Text) : readKeyword letters (letters ++ t) = .ok ((), t) := by
  induction letters with
  | nil => rfl
  | cons letter letters ih =>
      have hpeek : peek (letter :: (letters ++ t)) = .ok (some letter, letter :: (letters ++ t)) := rfl
      rw [List.cons_append, readKeyword, bind_of_eq_ok hpeek]
      simp only [if_true]
      rw [bind_of_eq_ok (skip_cons _ _), ih]

/-! ### Strings -/

theorem hexValue?_hexDigit : ∀ n, n < 16 → Text.hexValue? (Text.hexDigit n) = some n := by
  decide

/-- A control character is read back from its code unit. -/
theorem unicodeEscape_control {c : Char} (h : c.toNat < 0x20) (rest : Text) :
    unicodeEscape ('0' :: '0' :: Text.hexDigit (c.toNat / 16) :: Text.hexDigit (c.toNat % 16) :: rest)
      = .ok (c, 4) := by
  have hhigh := hexValue?_hexDigit (c.toNat / 16) (by omega)
  have hlow := hexValue?_hexDigit (c.toNat % 16) (by omega)
  have hzero : Text.hexValue? '0' = some 0 := by decide
  have hsum : ((0 * 16 + 0) * 16 + c.toNat / 16) * 16 + c.toNat % 16 = c.toNat := by omega
  have hunit : hexEscape ('0' :: '0' :: Text.hexDigit (c.toNat / 16) :: Text.hexDigit (c.toNat % 16) :: rest)
      = .ok c.toNat := by
    simp only [hexEscape, fourDigits?, hzero, hhigh, hlow, Option.bind_eq_bind, Option.bind_some, hsum]
    rfl
  have htrailing : isTrailing c.toNat = false := by
    simp only [isTrailing, Bool.and_eq_false_iff, decide_eq_false_iff_not]
    omega
  have hleading : isLeading c.toNat = false := by
    simp only [isLeading, Bool.and_eq_false_iff, decide_eq_false_iff_not]
    omega
  rw [unicodeEscape, hunit]
  simp only [bind, Except.bind, htrailing, hleading, Char.ofNat_toNat]
  rfl

/-- The characters that an escape covers are passed over. -/
theorem stringBody_covered (covered rest : Text) :
    stringBody covered.length (covered ++ rest) = stringBody 0 rest := by
  induction covered with
  | nil => rfl
  | cons c covered ih => exact ih

theorem stringBody_of_escape {c : Char} {covered below : Text}
    (h : escape (covered ++ below) = .ok (c, covered.length)) {body after : Text}
    (hbelow : stringBody 0 below = .ok (body, after)) :
    stringBody 0 ('\\' :: (covered ++ below)) = .ok (c :: body, after) := by
  rw [stringBody, if_neg (by decide), if_pos rfl]
  simp only [h, bind, Except.bind, stringBody_covered, hbelow]
  rfl

/-- A short escape is read back. -/
theorem stringBody_shortEscape {c d : Char} (h : shortEscape? d = some c) {below body after : Text}
    (hbelow : stringBody 0 below = .ok (body, after)) :
    stringBody 0 ('\\' :: d :: below) = .ok (c :: body, after) := by
  have hescape : escape ([d] ++ below) = .ok (c, [d].length) := by
    unfold escape
    split
    · contradiction
    · rename_i heq
      obtain rfl := (List.cons.inj heq).1
      contradiction
    · rename_i heq
      obtain rfl := (List.cons.inj heq).1
      simp only [h]
      rfl
  exact stringBody_of_escape hescape hbelow

/-- One escaped character is read back. -/
theorem stringBody_escapedChar (c : Char) {below body after : Text}
    (hbelow : stringBody 0 below = .ok (body, after)) :
    stringBody 0 (Text.escapedChar c ++ below) = .ok (c :: body, after) := by
  fun_cases Text.escapedChar c with
  | case1 | case2 | case3 | case4 | case5 | case6 | case7 => exact stringBody_shortEscape rfl hbelow
  | case8 c _ _ _ _ _ _ _ hcontrol =>
      have hescape : escape (['u', '0', '0', Text.hexDigit (c.toNat / 16), Text.hexDigit (c.toNat % 16)] ++ below)
          = .ok (c, 5) := by
        have hread := unicodeEscape_control hcontrol below
        simp only [List.cons_append, List.nil_append, escape, hread]
        rfl
      exact stringBody_of_escape hescape hbelow
  | case9 c hquote hbackslash _ _ _ _ _ hcontrol =>
      have hplain : isControl c = false := by simpa [isControl] using hcontrol
      rw [List.singleton_append, stringBody, if_neg hquote, if_neg hbackslash]
      simp only [hplain, hbelow, bind, Except.bind]
      rfl

/-- A literal is read back from behind its opening quote. -/
theorem stringBody_escaped (s rest : Text) : stringBody 0 (Text.escaped s ++ '"' :: rest) = .ok (s, rest) := by
  induction s with
  | nil => rfl
  | cons c s ih =>
      rw [Text.escaped, List.flatMap_cons, List.append_assoc]
      exact stringBody_escapedChar c ih

/-! ### Numbers -/

theorem startsWithDigit_eq_false {rest : Text} (h : Ends numeralChar rest) : startsWithDigit rest = false := by
  cases rest with
  | nil => rfl
  | cons c rest =>
      have hc := ends_cons.1 h
      simp only [numeralChar, Bool.or_eq_false_iff] at hc
      simpa [startsWithDigit] using hc.1.1.1

/-- Digits are taken as long as the number fits. -/
theorem takeDigits_append {limit n : Nat} {digits rest : Text} (hdigits : WrittenIn Char.isDigit digits)
    (hfit : Nat.ofDigitChars 10 digits n ≤ limit) (hrest : startsWithDigit rest = false) :
    takeDigits limit n (digits ++ rest) = (Nat.ofDigitChars 10 digits n, digits.length, rest) := by
  induction digits generalizing n with
  | nil =>
      cases rest with
      | nil => rfl
      | cons c rest =>
          have hc : c.isDigit = false := by simpa [startsWithDigit] using hrest
          simp [takeDigits, hc, Nat.ofDigitChars]
  | cons c digits ih =>
      obtain ⟨hc, hdigits⟩ := WrittenIn.cons_iff.1 hdigits
      have hlonger : n * 10 + Text.digitValue c = 10 * n + (c.toNat - '0'.toNat) := by
        rw [Nat.mul_comm, Text.digitValue]
      -- The bound is on the whole number, and no digit makes a number smaller, so every step stays below it.
      rw [Nat.ofDigitChars_cons, ← hlonger] at hfit
      have hgrows := Text.ofDigitChars_eq digits (n * 10 + Text.digitValue c)
      have hpow : 0 < 10 ^ digits.length := Nat.pow_pos (by decide)
      have hle := Nat.le_mul_of_pos_right (n * 10 + Text.digitValue c) hpow
      have hsmall : n * 10 + Text.digitValue c ≤ limit := by omega
      rw [List.cons_append, takeDigits]
      simp only [hc, hsmall, decide_true, Bool.and_true, if_true, ih hdigits hfit, List.length_cons,
        Nat.ofDigitChars_cons, ← hlonger]

theorem finishInteger_of_ends {n : Nat} {rest : Text} (h : Ends numeralChar rest) :
    finishInteger false n rest = .ok (.natural n, rest) := by
  have hpeek : peek rest = .ok (rest.head?, rest) := rfl
  rw [finishInteger, bind_of_eq_ok hpeek]
  cases rest with
  | nil => rfl
  | cons c rest =>
      have hc := ends_cons.1 h
      simp only [numeralChar, Bool.or_eq_false_iff, beq_eq_false_iff_ne] at hc
      simp only [List.head?_cons]
      split <;> simp_all
      rfl

/-- A numeral that fits is read as an integer, up to what cannot belong to it. -/
theorem readNumeral_numeral {n : Nat} (hn : n ≤ greatestNatural) {rest : Text} (h : Ends numeralChar rest) :
    readNumeral false (Text.numeral n ++ rest) = .ok (.natural n, rest) := by
  have hdigits := writtenIn_numeral n
  have hvalue := Text.digitsValue_numeral n
  have hneedless := Text.noNeedlessZero_numeral n
  have hends := startsWithDigit_eq_false h
  have hget : ∀ t : Text, (get : Reader Text) t = .ok (t, t) := fun _ => rfl
  rw [readNumeral, bind_of_eq_ok (hget _)]
  cases hnumeral : Text.numeral n with
  | nil => exact absurd hnumeral (Text.numeral_ne_nil n)
  | cons c digits =>
      rw [hnumeral] at hdigits hvalue hneedless
      -- A leading zero is read by itself; that is all there is, as no numeral has a needless one.
      by_cases hc : c = '0'
      · subst hc
        obtain rfl := (List.cons.inj (hneedless rfl)).2
        obtain rfl : 0 = n := by simpa [Text.digitsValue, Text.digitValue] using hvalue
        simp only [List.cons_append, List.nil_append, bind_of_eq_ok (skip_cons '0' rest), hends]
        exact finishInteger_of_ends h
      · have htaken := @takeDigits_append greatestNatural 0 (c :: digits) rest hdigits
        rw [← Text.digitsValue_eq_ofDigitChars, hvalue] at htaken
        have hset : ∀ t : Text, (set rest : Reader PUnit) t = .ok (⟨⟩, rest) := fun _ => rfl
        simp only [List.cons_append] at htaken ⊢
        have hdigit := (WrittenIn.cons_iff.1 hdigits).1
        rw [if_neg (by simp [hdigit])]
        simp only [htaken hn hends]
        rw [bind_of_eq_ok (hset _)]
        simp only [hends]
        exact finishInteger_of_ends h

/-! ### Values -/

section Values

variable {α : Type}

/-- A literal is read back, whatever follows it. -/
theorem readText_literal {blanks : Text} (hblanks : Blanks blanks) (s rest : Text) :
    readText (blanks ++ Text.literal s ++ rest) = .ok (s, rest) := by
  have hvalue : peekValue (blanks ++ '"' :: (Text.escaped s ++ '"' :: rest))
      = .ok ('"', '"' :: (Text.escaped s ++ '"' :: rest)) := peekValue_of_blanks hblanks rfl
  simp only [Text.literal, List.append_assoc, List.cons_append, List.nil_append]
  rw [readText, bind_of_eq_ok hvalue, if_pos rfl, bind_of_eq_ok (skip_cons _ _)]
  exact stringBody_escaped s rest

theorem reads_readText (s : Text) : Reads readText (.string s) s := by
  intro t rest ht _
  cases ht with
  | string hblanks => exact readText_literal hblanks s rest

theorem reads_readBool (b : Bool) : Reads readBool (.bool b) b := by
  intro t rest ht _
  cases ht with
  | @bool blanks hblanks =>
      cases b with
      | true =>
          have hvalue : peekValue (blanks ++ 't' :: ("rue".toList ++ rest)) = .ok ('t', 't' :: ("rue".toList ++ rest)) :=
            peekValue_of_blanks hblanks rfl
          have hword : blanks ++ Text.ofBool true ++ rest = blanks ++ 't' :: ("rue".toList ++ rest) :=
            List.append_assoc _ _ _
          rw [hword, readBool, bind_of_eq_ok hvalue]
          simp only
          rw [bind_of_eq_ok (skip_cons _ _), bind_of_eq_ok (readKeyword_append _ _)]
          rfl
      | false =>
          have hvalue : peekValue (blanks ++ 'f' :: ("alse".toList ++ rest))
              = .ok ('f', 'f' :: ("alse".toList ++ rest)) := peekValue_of_blanks hblanks rfl
          have hword : blanks ++ Text.ofBool false ++ rest = blanks ++ 'f' :: ("alse".toList ++ rest) :=
            List.append_assoc _ _ _
          rw [hword, readBool, bind_of_eq_ok hvalue]
          simp only
          rw [bind_of_eq_ok (skip_cons _ _), bind_of_eq_ok (readKeyword_append _ _)]
          rfl

/-- A digit is no blank. -/
theorem isBlank_of_isDigit {c : Char} (h : c.isDigit = true) : isBlank c = false := by
  have hbounds := Char.isDigit_iff_toNat.1 h
  simp only [isBlank, Bool.or_eq_false_iff, beq_eq_false_iff_ne]
  refine ⟨⟨⟨?_, ?_⟩, ?_⟩, ?_⟩ <;> (rintro rfl; revert hbounds; decide)

theorem reads_readWord (n : UInt32) : Reads readWord (.number n.toNat) n := by
  intro t rest ht hrest
  cases ht with
  | @number blanks hblanks =>
      have hn : n.toNat ≤ 0xFFFFFFFF := Nat.le_of_lt_succ n.toNat_lt
      have hnumeral := readNumeral_numeral (Nat.le_trans hn (by decide)) hrest
      obtain ⟨c, digits, hdigits⟩ := List.exists_cons_of_ne_nil (Text.numeral_ne_nil n.toNat)
      have hwritten := writtenIn_numeral n.toNat
      rw [hdigits] at hwritten hnumeral
      have hc := (WrittenIn.cons_iff.1 hwritten).1
      have hminus : c ≠ '-' := by
        rintro rfl
        contradiction
      have hvalue : peekValue (blanks ++ c :: (digits ++ rest)) = .ok (c, c :: (digits ++ rest)) :=
        peekValue_of_blanks hblanks (isBlank_of_isDigit hc)
      rw [hdigits, List.append_assoc, List.cons_append, readWord, bind_of_eq_ok hvalue]
      simp only [hminus, hc, if_false, if_true]
      rw [List.cons_append] at hnumeral
      rw [bind_of_eq_ok hnumeral]
      simp only [hn, if_true]
      rw [UInt32.ofNat_toNat]
      rfl

theorem reads_readChoice {choices : List (Text × α)} {name : Text} {choice : α}
    (h : choices.lookup name = some choice) : Reads (readChoice choices) (.string name) choice := by
  intro t rest ht _
  cases ht with
  | @string blanks hblanks =>
      have hvalue : peekValue (blanks ++ '"' :: (Text.escaped name ++ '"' :: rest))
          = .ok ('"', '"' :: (Text.escaped name ++ '"' :: rest)) := peekValue_of_blanks hblanks rfl
      have hname : readString (Text.escaped name ++ '"' :: rest) = .ok (name, rest) := stringBody_escaped name rest
      simp only [Text.literal, List.append_assoc, List.cons_append, List.nil_append]
      rw [readChoice, bind_of_eq_ok hvalue]
      simp only
      rw [bind_of_eq_ok (skip_cons _ _), bind_of_eq_ok hname]
      simp only [chosen, h]
      rfl

end Values

end CanvasExport.Json
