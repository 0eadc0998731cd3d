/-
Module: CanvasExport.Proofs.Text.Bytes
Layer: Proofs
Purpose: What bytes show. The bytes of a text show this text and no other, so a byte sequence is a text exactly if it
  is what its own shown text is written as. A byte below 0x80 is a character by itself, in the bytes of a text and in
  what bytes show, so a text can be taken apart at such bytes.
Main exports: Text.lossy_bytes, Text.ofBytes?_eq_some_iff, Text.mem_of_mem_bytes, Text.mem_of_mem_lossy,
  Text.IsUtf8.of_append_cons
-/
import CanvasExport.Text.Bytes

namespace CanvasExport.Text

/-! ### The bytes of one character -/

theorem utf8EncodeChar_eq (c : Char) :
    String.utf8EncodeChar c =
      if c.toNat ≤ 0x7F then [UInt8.ofNat c.toNat]
      else if c.toNat ≤ 0x7FF then [UInt8.ofNat (c.toNat / 64 % 32 + 0xC0), UInt8.ofNat (c.toNat % 64 + 0x80)]
      else if c.toNat ≤ 0xFFFF then
        [UInt8.ofNat (c.toNat / 4096 % 16 + 0xE0), UInt8.ofNat (c.toNat / 64 % 64 + 0x80),
          UInt8.ofNat (c.toNat % 64 + 0x80)]
      else
        [UInt8.ofNat (c.toNat / 262144 % 8 + 0xF0), UInt8.ofNat (c.toNat / 4096 % 64 + 0x80),
          UInt8.ofNat (c.toNat / 64 % 64 + 0x80), UInt8.ofNat (c.toNat % 64 + 0x80)] :=
  rfl

theorem toNat_ofNat_byte {n : Nat} (h : n < 256) : (UInt8.ofNat n).toNat = n :=
  UInt8.toNat_ofNat_of_lt' h

/-- Only a character below 0x80 has a byte below 0x80, and no other byte. -/
theorem eq_of_mem_utf8EncodeChar {c : Char} {b : UInt8} (hmem : b ∈ String.utf8EncodeChar c) (hb : b.toNat < 0x80) :
    String.utf8EncodeChar c = [b] ∧ c.toNat = b.toNat := by
  have hhigh : ∀ n, 0x80 ≤ n → n < 256 → b ≠ UInt8.ofNat n := by
    rintro n hleast hlt rfl
    rw [toNat_ofNat_byte hlt] at hb
    omega
  rw [utf8EncodeChar_eq] at hmem ⊢
  generalize c.toNat = v at hmem ⊢
  split at hmem
  · rename_i hone
    rw [if_pos hone]
    obtain rfl := List.mem_singleton.1 hmem
    exact ⟨rfl, (toNat_ofNat_byte (by omega)).symm⟩
  · -- Every byte of a longer character has its highest bit.
    exfalso
    split at hmem
    · simp only [List.mem_cons, List.not_mem_nil, or_false] at hmem
      rcases hmem with h | h <;> exact hhigh _ (by omega) (by omega) h
    split at hmem
    · simp only [List.mem_cons, List.not_mem_nil, or_false] at hmem
      rcases hmem with h | h | h <;> exact hhigh _ (by omega) (by omega) h
    · simp only [List.mem_cons, List.not_mem_nil, or_false] at hmem
      rcases hmem with h | h | h | h <;> exact hhigh _ (by omega) (by omega) h

/-! ### Reading back -/

theorem lossyFrom_first {n : Nat} (h : n < 256) (rest : Bytes) :
    lossyFrom none (UInt8.ofNat n :: rest) = (atStart n).1 ++ lossyFrom (atStart n).2 rest := by
  rw [lossyFrom, toNat_ofNat_byte h]

/-- The last byte of a character completes it. -/
theorem lossyFrom_last {value least greatest n : Nat} (hn : n < 64) (hleast : least ≤ n + 0x80)
    (hgreatest : n + 0x80 ≤ greatest) (rest : Bytes) :
    lossyFrom (some ⟨value, 0, least, greatest⟩) (UInt8.ofNat (n + 0x80) :: rest)
      = Char.ofNat (value * 64 + n) :: lossyFrom none rest := by
  rw [lossyFrom, toNat_ofNat_byte (by omega), if_pos ⟨hleast, hgreatest⟩, Nat.add_sub_cancel]

/-- A byte in between adds its six bits. -/
theorem lossyFrom_between {value behind least greatest n : Nat} (hn : n < 64) (hleast : least ≤ n + 0x80)
    (hgreatest : n + 0x80 ≤ greatest) (rest : Bytes) :
    lossyFrom (some ⟨value, behind + 1, least, greatest⟩) (UInt8.ofNat (n + 0x80) :: rest)
      = lossyFrom (some (.goingOn (value * 64 + n) behind)) rest := by
  rw [lossyFrom, toNat_ofNat_byte (by omega), if_pos ⟨hleast, hgreatest⟩, Nat.add_sub_cancel]

/-- The bytes of a character show it, whatever follows them. -/
theorem lossyFrom_encoded (c : Char) (rest : Bytes) :
    lossyFrom none (String.utf8EncodeChar c ++ rest) = c :: lossyFrom none rest := by
  have hvalid : c.toNat < 0xD800 ∨ 0xDFFF < c.toNat ∧ c.toNat < 0x110000 := c.valid
  have hchar : ∀ n, n = c.toNat → Char.ofNat n = c := fun n h => h ▸ Char.ofNat_toNat c
  rw [utf8EncodeChar_eq]
  generalize c.toNat = v at hvalid hchar ⊢
  -- One case for each number of bytes.
  split
  · rw [List.cons_append, List.nil_append, lossyFrom_first (by omega), atStart, if_pos (by omega), hchar v rfl]
    rfl
  split
  · rw [List.cons_append, lossyFrom_first (by omega), atStart, if_neg (by omega), if_neg (by omega),
      if_pos (by omega)]
    simp only [List.cons_append, List.nil_append, Begun.goingOn]
    rw [lossyFrom_last (by omega) (by omega) (by omega), hchar _ (by omega)]
  split
  · rw [List.cons_append, lossyFrom_first (by omega), atStart, if_neg (by omega), if_neg (by omega),
      if_neg (by omega), if_pos (by omega)]
    simp only [List.cons_append, List.nil_append]
    rw [lossyFrom_between (by omega) (by split <;> omega) (by split <;> omega), Begun.goingOn,
      lossyFrom_last (by omega) (by omega) (by omega), hchar _ (by omega)]
  · rw [List.cons_append, lossyFrom_first (by omega), atStart, if_neg (by omega), if_neg (by omega),
      if_neg (by omega), if_neg (by omega), if_pos (by omega)]
    simp only [List.cons_append, List.nil_append]
    rw [lossyFrom_between (by omega) (by split <;> omega) (by split <;> omega), Begun.goingOn,
      lossyFrom_between (by omega) (by omega) (by omega), Begun.goingOn,
      lossyFrom_last (by omega) (by omega) (by omega), hchar _ (by omega)]

/-- The bytes of a text show this text. -/
theorem lossy_bytes (t : Text) : lossy (bytes t) = t := by
  induction t with
  | nil => rfl
  | cons c t ih =>
      rw [bytes_cons, lossy, lossyFrom_encoded]
      exact congrArg (c :: ·) ih

theorem ofBytes?_eq_some_iff {p : Bytes} {t : Text} : ofBytes? p = some t ↔ bytes t = p := by
  unfold ofBytes?
  constructor
  · intro h
    split at h
    · rename_i hsame
      obtain rfl := Option.some.inj h
      exact hsame
    · contradiction
  · rintro rfl
    rw [lossy_bytes, if_pos rfl]

theorem ofBytes?_eq_none_iff {p : Bytes} : ofBytes? p = none ↔ ¬ IsUtf8 p := by
  simp only [Option.eq_none_iff_forall_ne_some, ne_eq, ofBytes?_eq_some_iff, IsUtf8, not_exists]

theorem ofBytes?_bytes (t : Text) : ofBytes? (bytes t) = some t :=
  ofBytes?_eq_some_iff.2 rfl

/-! ### Bytes that are characters -/

/-- A byte below 0x80 among the bytes of a text is a character of it. -/
theorem mem_of_mem_bytes {t : Text} {b : UInt8} (hmem : b ∈ bytes t) (hb : b.toNat < 0x80) :
    ∃ c ∈ t, c.toNat = b.toNat := by
  obtain ⟨c, hc, hbyte⟩ := List.mem_flatMap.1 hmem
  exact ⟨c, hc, (eq_of_mem_utf8EncodeChar hbyte hb).2⟩

/-- The next byte in its range does not make the character one below 0x80. -/
def Begun.Wide (s : Begun) : Prop :=
  (0 < s.value ∨ 0x90 ≤ s.least) ∧ (s.behind = 0 → 2 ≤ s.value)

theorem wide_of_atStart {b : Nat} {s : Begun} (h : (atStart b).2 = some s) : s.Wide := by
  unfold atStart at h
  split at h
  · contradiction
  split at h
  · contradiction
  split at h
  · obtain rfl := Option.some.inj h
    refine ⟨.inl ?_, fun _ => ?_⟩ <;> simp only [Begun.goingOn] <;> omega
  split at h
  · obtain rfl := Option.some.inj h
    refine ⟨?_, fun h => by contradiction⟩
    dsimp only
    split <;> omega
  split at h
  · obtain rfl := Option.some.inj h
    refine ⟨?_, fun h => by contradiction⟩
    dsimp only
    split <;> omega
  · contradiction

theorem toNat_ofNat_of_isValidChar {n : Nat} (h : n.isValidChar) : (Char.ofNat n).toNat = n := by
  rw [Char.ofNat, dif_pos h]
  rfl

/-- A number that is no character becomes the null character. -/
theorem toNat_ofNat_of_pos {n : Nat} (h : 0 < (Char.ofNat n).toNat) : (Char.ofNat n).toNat = n := by
  by_cases hvalid : n.isValidChar
  · exact toNat_ofNat_of_isValidChar hvalid
  · rw [Char.ofNat, dif_neg hvalid] at h
    exact absurd h (Nat.lt_irrefl 0)

theorem ne_replacement_of_lt {c : Char} (h : c.toNat < 0x80) : c ≠ replacement := by
  rintro rfl
  exact absurd h (by decide)

/-- What a byte shows by itself below 0x80 is this byte. -/
theorem toNat_of_mem_atStart {b : Nat} {c : Char} (hmem : c ∈ (atStart b).1) (hc : c.toNat < 0x80) : c.toNat = b := by
  have hreplacement := ne_replacement_of_lt hc
  unfold atStart at hmem
  split at hmem
  · rename_i hb
    obtain rfl := List.mem_singleton.1 hmem
    exact toNat_ofNat_of_isValidChar (.inl (by omega))
  · -- Any other byte shows the replacement character or nothing.
    exfalso
    repeat' split at hmem
    all_goals simp_all

/-- A character below 0x80 that is shown is one of the bytes, unless it is the null character. -/
theorem mem_of_mem_lossyFrom {begun : Option Begun} {p : Bytes} (hwide : ∀ s, begun = some s → s.Wide) {c : Char}
    (hmem : c ∈ lossyFrom begun p) (hpos : 0 < c.toNat) (hc : c.toNat < 0x80) : ∃ b ∈ p, b.toNat = c.toNat := by
  have hreplacement := ne_replacement_of_lt hc
  induction p generalizing begun with
  | nil =>
      cases begun with
      | none => contradiction
      | some s => exact absurd (List.mem_singleton.1 hmem) hreplacement
  | cons b rest ih =>
      have hrest : ∀ next : Option Begun, (∀ s, next = some s → s.Wide) → c ∈ lossyFrom next rest →
          ∃ d ∈ b :: rest, d.toNat = c.toNat := fun next hnext hmem =>
        (ih hnext hmem).imp fun _ h => h.imp_left (List.mem_cons_of_mem _)
      have hstart : c ∈ (atStart b.toNat).1 ++ lossyFrom (atStart b.toNat).2 rest →
          ∃ d ∈ b :: rest, d.toNat = c.toNat := by
        intro hmem
        rcases List.mem_append.1 hmem with hmem | hmem
        · exact ⟨b, List.mem_cons_self, (toNat_of_mem_atStart hmem hc).symm⟩
        · exact hrest _ (fun s => wide_of_atStart) hmem
      cases begun with
      | none => exact hstart hmem
      | some s =>
          obtain ⟨hfirst, hlast⟩ := hwide s rfl
          unfold lossyFrom at hmem
          split at hmem
          · rename_i hwithin
            dsimp only at hmem
            split at hmem
            · rename_i hbehind
              have hvalue := hlast hbehind
              rcases List.mem_cons.1 hmem with heq | hmem
              · rw [heq] at hpos hc
                rw [toNat_ofNat_of_pos hpos] at hc
                omega
              · exact hrest none nofun hmem
            · refine hrest _ (fun next hnext => ?_) hmem
              obtain rfl := Option.some.inj hnext
              refine ⟨.inl ?_, fun _ => ?_⟩ <;> simp only [Begun.goingOn] <;> omega
          · exact hstart ((List.mem_cons.1 hmem).resolve_left hreplacement)

/-- A character below 0x80 that bytes show is one of them, unless it is the null character. -/
theorem mem_of_mem_lossy {p : Bytes} {c : Char} (hmem : c ∈ lossy p) (hpos : 0 < c.toNat) (hc : c.toNat < 0x80) :
    ∃ b ∈ p, b.toNat = c.toNat := by
  have hwide : ∀ s, (none : Option Begun) = some s → s.Wide := nofun
  exact mem_of_mem_lossyFrom hwide hmem hpos hc

namespace IsUtf8

theorem nil : IsUtf8 [] :=
  ⟨[], rfl⟩

theorem append {p q : Bytes} (hp : IsUtf8 p) (hq : IsUtf8 q) : IsUtf8 (p ++ q) := by
  obtain ⟨s, rfl⟩ := hp
  obtain ⟨t, rfl⟩ := hq
  exact ⟨s ++ t, bytes_append s t⟩

/-- A text is taken apart at a byte below 0x80 into two texts. -/
theorem of_append_cons {p q : Bytes} {b : UInt8} (h : IsUtf8 (p ++ b :: q)) (hb : b.toNat < 0x80) :
    IsUtf8 p ∧ IsUtf8 q := by
  obtain ⟨t, ht⟩ := h
  induction t generalizing p with
  | nil => exact absurd ht.symm (by simp)
  | cons c t ih =>
      rw [bytes_cons] at ht
      rcases List.append_eq_append_iff.1 ht with ⟨behind, rfl, hrest⟩ | ⟨part, hencoded, hrest⟩
      · -- The character lies before the byte.
        obtain ⟨hbehind, hq⟩ := ih hrest
        exact ⟨append ⟨[c], by simp⟩ hbehind, hq⟩
      · cases part with
        | nil =>
            -- The character ends right before the byte.
            obtain ⟨-, hq⟩ := ih (p := []) hrest.symm
            exact ⟨⟨[c], by simpa using hencoded⟩, hq⟩
        | cons d part =>
            -- The byte is one of the character's, so it is the only one.
            obtain ⟨rfl, rfl⟩ := List.cons.inj hrest
            obtain ⟨hsingle, -⟩ := eq_of_mem_utf8EncodeChar (b := b) (c := c) (by simp [hencoded]) hb
            rw [hencoded] at hsingle
            obtain ⟨rfl, hnil⟩ : p = [] ∧ part = [] := by
              have hlength := congrArg List.length hsingle
              simp at hlength
              exact ⟨List.eq_nil_of_length_eq_zero (by omega), List.eq_nil_of_length_eq_zero (by omega)⟩
            exact ⟨nil, t, by simp [hnil]⟩

end IsUtf8

end CanvasExport.Text
