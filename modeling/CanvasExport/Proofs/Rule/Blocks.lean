/-
Module: CanvasExport.Proofs.Rule.Blocks
Layer: Proofs
Purpose: Rewriting line by line. For each line that a rule reads it writes a block of one or more lines; the
  first takes the break that stood in front of the read line, the others take the inserted ending. What a
  rule does to breaks is settled here once, apart from what it does to contents.
Main exports: Block, Block.eq_singles, Lines.write, contents_write, withEnding_write, unbroken_write, ending_write,
  Recognizer.Inline.script_lines
-/
import CanvasExport.Proofs.Text.Sweep

namespace CanvasExport

/-- The lines that are written for one line. -/
structure Block where
  first : Text
  more : List Text
deriving DecidableEq, Repr

namespace Block

def lines (b : Block) : List Text :=
  b.first :: b.more

/-- The block of a single line. -/
def single (content : Text) : Block :=
  ⟨content, []⟩

@[simp] theorem lines_single (content : Text) : (single content).lines = [content] := rfl

@[simp] theorem flatMap_lines_single (contents : List Text) :
    (contents.map single).flatMap lines = contents := by
  induction contents with
  | nil => rfl
  | cons content contents ih => simp [ih]

theorem flatMap_lines_map (f : Text → Text) (contents : List Text) :
    (contents.map fun content => single (f content)).flatMap lines = contents.map f := by
  rw [← flatMap_lines_single (contents.map f), List.map_map]
  rfl

/-- Blocks that together write one line for each are blocks of one line. -/
theorem eq_singles {blocks : List Block} {contents : List Text} (hlength : blocks.length = contents.length)
    (h : blocks.flatMap lines = contents) : blocks = contents.map single := by
  -- A block has at least one line, so a total of one for each leaves none with more.
  have hgrow : ∀ blocks : List Block, blocks.length ≤ (blocks.flatMap lines).length := by
    intro blocks
    induction blocks with
    | nil => simp
    | cons b blocks ih =>
        simp only [List.flatMap_cons, List.length_append, List.length_cons, lines]
        omega
  induction blocks generalizing contents with
  | nil =>
      rw [← h]
      rfl
  | cons b blocks ih =>
      obtain ⟨first, more⟩ := b
      subst h
      have hrest := hgrow blocks
      simp only [List.flatMap_cons, List.length_append, List.length_cons, lines] at hlength
      obtain rfl : more = [] := List.length_eq_zero_iff.1 (by omega)
      have hlines : blocks.length = (blocks.flatMap lines).length := by
        rw [List.length_nil] at hlength
        omega
      have hsingles := ih hlines rfl
      rw [List.flatMap_cons, List.map_append, ← hsingles]
      rfl

end Block

namespace Lines

/-- Lines with the same break in front of each. -/
def led (ending : LineEnding) (contents : List Text) : List (LineEnding × Text) :=
  contents.map fun content => (ending, content)

@[simp] theorem led_nil (ending : LineEnding) : led ending [] = [] := rfl

@[simp] theorem map_snd_led (ending : LineEnding) (contents : List Text) :
    (led ending contents).map Prod.snd = contents := by
  simp [led, Function.comp_def]

@[simp] theorem withEnding_led (ending other : LineEnding) (contents : List Text) :
    (led other contents).map (fun line => (ending, line.2)) = led ending contents := by
  simp [led]

theorem any_crlf_led (ending : LineEnding) (contents : List Text) :
    (led ending contents).any (fun line => line.1 == .crlf) = (ending == .crlf && !contents.isEmpty) := by
  cases contents <;> simp [led, Function.comp_def]

@[simp] theorem belowText_led (ending : LineEnding) (contents : List Text) :
    belowText (led ending contents) = contents.flatMap fun content => ending.text ++ content := by
  induction contents with
  | nil => rfl
  | cons content contents ih => simpa [led] using ih

/-- Puts a block in place of each line below a line. -/
def writeBelow (ending : LineEnding) : List (LineEnding × Text) → List Block → List (LineEnding × Text)
  | (lead, _) :: rest, b :: blocks =>
    (lead, b.first) :: (led ending b.more ++ writeBelow ending rest blocks)
  | _, _ => []

/-- Puts a block in place of each line. There are as many blocks as lines. -/
def write (ending : LineEnding) (ls : Lines) : List Block → Lines
  | [] => ls
  | b :: blocks =>
    ⟨b.first, led ending b.more ++ writeBelow ending ls.below blocks⟩

theorem map_snd_writeBelow {ending : LineEnding} {below : List (LineEnding × Text)} {blocks : List Block}
    (h : blocks.length = below.length) :
    (writeBelow ending below blocks).map Prod.snd = blocks.flatMap Block.lines := by
  induction below generalizing blocks with
  | nil =>
      obtain rfl : blocks = [] := List.length_eq_zero_iff.1 h
      rfl
  | cons line below ih =>
      cases blocks with
      | nil => simp at h
      | cons b blocks =>
          have hrest := @ih blocks (by simpa using h)
          simp [writeBelow, hrest, Block.lines]

/-- The contents that are written are those of the blocks. -/
theorem contents_write {ending : LineEnding} {ls : Lines} {blocks : List Block}
    (h : blocks.length = ls.contents.length) :
    (ls.write ending blocks).contents = blocks.flatMap Block.lines := by
  cases blocks with
  | nil => simp [contents] at h
  | cons b blocks =>
      have hbelow := @map_snd_writeBelow ending ls.below blocks (by simpa [contents] using h)
      simp [write, contents, hbelow, Block.lines]

/-- Blocks of unbroken lines make unbroken lines. -/
theorem unbroken_write {ending : LineEnding} {ls : Lines} {blocks : List Block}
    (h : blocks.length = ls.contents.length)
    (hlines : ∀ content ∈ blocks.flatMap Block.lines, CanvasExport.Unbroken content) :
    (ls.write ending blocks).Unbroken := by
  rw [Unbroken, contents_write h]
  exact hlines

theorem map_writeBelow (ending other : LineEnding) (below : List (LineEnding × Text)) (blocks : List Block) :
    (writeBelow other below blocks).map (fun line => (ending, line.2))
      = writeBelow ending (below.map fun line => (ending, line.2)) blocks := by
  induction below generalizing blocks with
  | nil => simp [writeBelow]
  | cons line below ih =>
      cases blocks with
      | nil => simp [writeBelow]
      | cons b blocks => simp [writeBelow, ih]

/-- Writing with one ending and then changing all breaks is changing them first. -/
theorem withEnding_write (ending other : LineEnding) (ls : Lines) (blocks : List Block) :
    (ls.write other blocks).withEnding ending = (ls.withEnding ending).write ending blocks := by
  cases blocks with
  | nil => rfl
  | cons b blocks => simp [write, withEnding, map_writeBelow]

theorem writeBelow_singles (ending : LineEnding) (below : List (LineEnding × Text)) :
    writeBelow ending below ((below.map Prod.snd).map .single) = below := by
  induction below with
  | nil => rfl
  | cons line below ih =>
      rw [List.map_cons, List.map_cons, writeBelow, ih]
      rfl

/-- Putting each line in its own place changes nothing. -/
theorem write_singles (ending : LineEnding) (ls : Lines) : ls.write ending (ls.contents.map .single) = ls := by
  rw [contents, List.map_cons, write, writeBelow_singles]
  rfl

theorem writeBelow_write (ending : LineEnding) {below : List (LineEnding × Text)} {contents : List Text}
    (h : contents.length = below.length) (blocks : List Block) :
    writeBelow ending (writeBelow ending below (contents.map .single)) blocks
      = writeBelow ending below blocks := by
  induction below generalizing contents blocks with
  | nil =>
      obtain rfl : contents = [] := List.length_eq_zero_iff.1 h
      rfl
  | cons line below ih =>
      cases contents with
      | nil => simp at h
      | cons content contents =>
          cases blocks with
          | nil => simp [writeBelow]
          | cons b blocks =>
              have hrest := @ih contents (by simpa using h) blocks
              simpa [writeBelow, Block.single] using hrest

/-- Of two writings, the first of which keeps the lines apart, the second stays. -/
theorem write_write (ending : LineEnding) {ls : Lines} {contents : List Text}
    (h : contents.length = ls.contents.length) {blocks : List Block} (hblocks : blocks ≠ []) :
    (ls.write ending (contents.map .single)).write ending blocks = ls.write ending blocks := by
  cases contents with
  | nil => simp [Lines.contents] at h
  | cons content contents =>
      obtain ⟨b, blocks, rfl⟩ := List.exists_cons_of_ne_nil hblocks
      have hbelow := @writeBelow_write ending ls.below contents (by simpa [Lines.contents] using h) blocks
      simp [write, Block.single, hbelow]

theorem any_crlf_writeBelow {ending : LineEnding} {below : List (LineEnding × Text)} {blocks : List Block}
    (h : blocks.length = below.length) :
    (writeBelow ending below blocks).any (fun line => line.1 == .crlf)
      = (below.any (fun line => line.1 == .crlf)
        || (ending == .crlf && blocks.any fun b => !b.more.isEmpty)) := by
  induction below generalizing blocks with
  | nil =>
      obtain rfl : blocks = [] := List.length_eq_zero_iff.1 h
      simp [writeBelow]
  | cons line below ih =>
      cases blocks with
      | nil => simp at h
      | cons b blocks =>
          have hrest := @ih blocks (by simpa using h)
          simp only [writeBelow, List.any_cons, List.any_append, hrest, any_crlf_led]
          cases line.1 == LineEnding.crlf <;> cases ending == LineEnding.crlf <;>
            cases b.more.isEmpty <;> simp

/-- Lines written with the ending that the text calls for leave it a text that calls for it. -/
theorem ending_write {ls : Lines} {blocks : List Block} (h : blocks.length = ls.contents.length) :
    (ls.write ls.ending blocks).ending = ls.ending := by
  cases blocks with
  | nil => rfl
  | cons b blocks =>
      have hbelow := @any_crlf_writeBelow ls.ending ls.below blocks (by simpa [contents] using h)
      cases hany : ls.below.any (fun line => line.1 == .crlf) with
      | true =>
          have hcrlf : ls.ending = .crlf := by rw [ending, hany, if_pos rfl]
          rw [hany, Bool.true_or] at hbelow
          rw [hcrlf] at hbelow ⊢
          simp [ending, write, hbelow]
      | false =>
          have hlf : ls.ending = .lf := by rw [ending, hany]; rfl
          rw [hany, hlf] at hbelow
          rw [hlf]
          simp [ending, write, any_crlf_led, hbelow]

end Lines

/-- A number for each content, all added up. -/
def totalOf (count : Text → Nat) (contents : List Text) : Nat :=
  contents.foldr (fun content total => count content + total) 0

@[simp] theorem totalOf_nil (count : Text → Nat) : totalOf count [] = 0 := rfl

@[simp] theorem totalOf_cons (count : Text → Nat) (content : Text) (contents : List Text) :
    totalOf count (content :: contents) = count content + totalOf count contents := rfl

theorem totalOf_congr {count other : Text → Nat} {contents : List Text}
    (h : ∀ content ∈ contents, count content = other content) : totalOf count contents = totalOf other contents := by
  induction contents with
  | nil => rfl
  | cons content contents ih =>
      rw [List.forall_mem_cons] at h
      rw [totalOf_cons, totalOf_cons, h.1, ih h.2]

namespace Recognizer

theorem script_belowText {r : Recognizer} (h : r.Inline) (ending : LineEnding) (content : Text)
    (below : List (LineEnding × Text)) :
    (r.script (content ++ Lines.belowText below)).result
        = (r.script content).result ++ Lines.belowText (Lines.writeBelow ending below
          ((below.map Prod.snd).map fun content => .single (r.script content).result))
      ∧ (r.script (content ++ Lines.belowText below)).swaps
        = (r.script content).swaps + totalOf (fun content => (r.script content).swaps)
          (below.map Prod.snd) := by
  induction below generalizing content with
  | nil => simp [Lines.writeBelow]
  | cons line below ih =>
      obtain ⟨lead, next⟩ := line
      obtain ⟨hresult, hswaps⟩ := ih next
      rw [Lines.belowText_cons, script_append_ending h]
      constructor
      · simp [Lines.writeBelow, hresult, Block.single]
      · simp [hswaps]

/-- A recognizer that stays within lines rewrites each line by itself. -/
theorem Inline.script_lines {r : Recognizer} (h : r.Inline) (ending : LineEnding) (ls : Lines) :
    Script.result (r.script ls.text)
        = (ls.write ending (ls.contents.map fun content => .single (r.script content).result)).text
      ∧ Script.swaps (r.script ls.text)
        = totalOf (fun content => (r.script content).swaps) ls.contents :=
  script_belowText h ending ls.top ls.below

end Recognizer

end CanvasExport
