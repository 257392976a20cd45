import Jingle.Text.Mark

/-!
# Parts of a text

A part of a text is found by the byte offsets at which it begins and ends. Offsets inside of a
character begin and end no part. A place that has moved over one piece of text after another is the
place after all of them, and the numbers that it hands on are exact as long as they fit into their
words.

* `Slice text start stop part rest` says that `part` lies between two offsets, before `rest`.
-/

namespace Jingle.Text

/-! ## Bytes -/

@[simp] theorem byteLength_nil : byteLength [] = 0 :=
  rfl

@[simp] theorem byteLength_cons (c : Char) (text : List Char) :
    byteLength (c :: text) = c.utf8Size + byteLength text :=
  rfl

@[simp] theorem byteLength_append (text rest : List Char) :
    byteLength (text ++ rest) = byteLength text + byteLength rest := by
  induction text with
  | nil => simp
  | cons c text ih =>
    rw [List.cons_append, byteLength_cons, byteLength_cons, ih]
    omega

theorem byteLength_replicate (count : Nat) (c : Char) :
    byteLength (List.replicate count c) = count * c.utf8Size := by
  induction count with
  | zero => rw [List.replicate_zero, byteLength_nil, Nat.zero_mul]
  | succ count ih => rw [List.replicate_succ, byteLength_cons, ih, Nat.succ_mul, Nat.add_comm]

theorem length_le_byteLength (text : List Char) : text.length ≤ byteLength text := by
  induction text with
  | nil => simp
  | cons c text ih =>
    have hSize := c.utf8Size_pos
    rw [List.length_cons, byteLength_cons]
    omega

theorem byteLength_pos {text : List Char} (h : text ≠ []) : 0 < byteLength text := by
  have hLength := List.length_pos_iff.mpr h
  have hBytes := length_le_byteLength text
  omega

theorem count_le_byteLength (c : Char) (text : List Char) : text.count c ≤ byteLength text :=
  Nat.le_trans List.count_le_length (length_le_byteLength text)

theorem utf8Size_eq_one_iff {c : Char} : c.utf8Size = 1 ↔ c.toNat < 0x80 := by
  rw [Char.utf8Size_eq_one_iff, UInt32.le_iff_toNat_le, ← Nat.lt_succ_iff]
  rfl

theorem byteLength_le_of_isPrefix {front text : List Char} (h : front <+: text) :
    byteLength front ≤ byteLength text := by
  obtain ⟨rest, rfl⟩ := h
  rw [byteLength_append]
  exact Nat.le_add_right _ _

/-! ## Parts -/

/-- A part of a text between two byte offsets, and the rest of the text after it. -/
def Slice (text : List Char) (start stop : Nat) (part rest : List Char) : Prop :=
  ∃ before, text = before ++ (part ++ rest) ∧ byteLength before = start ∧
    start + byteLength part = stop

/-! ## Places -/

namespace Mark

@[simp] theorem advance_nil (mark : Mark) : mark.advance [] = mark := by
  simp [advance]

theorem advance_append (mark : Mark) (text rest : List Char) :
    mark.advance (text ++ rest) = (mark.advance text).advance rest := by
  have hLine : mark.line + (text.count '\n' + rest.count '\n').toUInt32 =
      mark.line + (text.count '\n').toUInt32 + (rest.count '\n').toUInt32 := by
    rw [UInt32.add_assoc, ← UInt32.ofNat_add]
  simp only [advance, byteLength_append, List.count_append, hLine, Nat.add_assoc]

@[simp] theorem advance_bytes (mark : Mark) (text : List Char) :
    (mark.advance text).bytes = mark.bytes + byteLength text :=
  rfl

theorem toNat_offset {mark : Mark} (h : mark.bytes < UInt32.size) :
    mark.offset.toNat = mark.bytes :=
  UInt32.toNat_ofNat_of_lt' h

theorem toNat_offset_start {text : List Char} (h : byteLength text < UInt32.size) :
    (start.advance text).offset.toNat = byteLength text := by
  have hBytes : (start.advance text).bytes = byteLength text := Nat.zero_add _
  rw [toNat_offset (hBytes ▸ h), hBytes]

/-- The line of a place is one more than the number of line feeds before it, as long as it fits. -/
theorem toNat_line_of_count {text : List Char} (h : text.count '\n' + 1 < UInt32.size) :
    (start.advance text).line.toNat = 1 + text.count '\n' := by
  have hFeeds : (text.count '\n').toUInt32.toNat = text.count '\n' :=
    UInt32.toNat_ofNat_of_lt' (by omega)
  have hLine : (start.advance text).line = 1 + (text.count '\n').toUInt32 := rfl
  rw [hLine, UInt32.toNat_add, hFeeds]
  apply Nat.mod_eq_of_lt
  have hSize : UInt32.size = 4294967296 := rfl
  rw [UInt32.toNat_one]
  omega

theorem toNat_line_le (text : List Char) :
    (start.advance text).line.toNat ≤ 1 + text.count '\n' := by
  have hLine : (start.advance text).line = 1 + (text.count '\n').toUInt32 := rfl
  have hFeeds : (text.count '\n').toUInt32.toNat ≤ text.count '\n' := Nat.mod_le _ _
  have hSum := Nat.mod_le (1 + (text.count '\n').toUInt32.toNat) UInt32.size
  rw [hLine, UInt32.toNat_add, UInt32.toNat_one]
  exact Nat.le_trans hSum (Nat.add_le_add_left hFeeds 1)

/-- The line of a place in a text that is short enough fits. -/
theorem toNat_line_start {text : List Char} (h : byteLength text + 1 < UInt32.size) :
    (start.advance text).line.toNat = 1 + text.count '\n' := by
  have hCount := count_le_byteLength '\n' text
  exact toNat_line_of_count (by omega)

/-- Lines do not go back, as long as they fit. -/
theorem line_le_advance {text rest : List Char}
    (h : (text ++ rest).count '\n' + 1 < UInt32.size) :
    (start.advance text).line ≤ (start.advance (text ++ rest)).line := by
  rw [UInt32.le_iff_toNat_le, toNat_line_of_count h]
  rw [List.count_append] at h ⊢
  rw [toNat_line_of_count (by omega)]
  omega

end Mark

end Jingle.Text
