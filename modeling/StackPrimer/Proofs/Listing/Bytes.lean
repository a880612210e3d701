import StackPrimer.Proofs.Listing.Program
import StackPrimer.Text.Utf8

/-!
# Listings in bytes

A listing of known operations is written with plain characters and line feeds only. Each of them is one
byte, and no line break is another than a line feed, so that the text comes back from a file as it was
written.

Results:
* `decode_bytes`: plain characters come back from their bytes.
* `Program.isPlainText_render`: what the listing of known operations is written with.
* `Program.decode_render`: the listing comes back from its bytes.
-/

namespace StackPrimer

namespace Text

/-! ## Bytes of plain characters -/

/-- The text has no character but those of one byte each, and no carriage return. -/
def IsPlainText (cs : List Char) : Prop := ∀ c ∈ cs, c.toNat < 0x80 ∧ c ≠ '\r'

theorem IsPlainText.append {cs ds : List Char} (h : IsPlainText cs) (h' : IsPlainText ds) :
    IsPlainText (cs ++ ds) :=
  List.forall_mem_append.mpr ⟨h, h'⟩

theorem toList_loop (bytes : ByteArray) (i : Nat) (done : List UInt8) :
    ByteArray.toList.loop bytes i done = done.reverse ++ bytes.data.toList.drop i := by
  induction hleft : bytes.size - i generalizing i done with
  | zero =>
    have hend : ¬ i < bytes.size := by omega
    have hlength : bytes.data.toList.length ≤ i := by
      rw [Array.length_toList, ByteArray.size_data]
      omega
    rw [ByteArray.toList.loop, if_neg hend, List.drop_of_length_le hlength, List.append_nil]
  | succ left ih =>
    have hi : i < bytes.size := by omega
    have hlength : i < bytes.data.toList.length := by
      rw [Array.length_toList, ByteArray.size_data]
      exact hi
    have hbyte : bytes.get! i = bytes.data.toList[i] := by
      rw [Array.getElem_toList]
      exact getElem!_pos bytes.data i hi
    rw [ByteArray.toList.loop, if_pos hi, ih (i + 1) _ (by omega), List.drop_eq_getElem_cons hlength, hbyte]
    simp

/-- The bytes of a text are those of its characters. -/
theorem bytes_eq (s : String) : s.toUTF8.toList = s.toList.flatMap String.utf8EncodeChar := by
  have hs : s.toUTF8 = s.toList.utf8Encode := by
    rw [← String.toByteArray_ofList, String.ofList_toList, String.toUTF8_eq_toByteArray]
  rw [hs, ByteArray.toList, toList_loop, List.reverse_nil, List.nil_append, List.drop_zero,
    List.utf8Encode, List.toList_data_toByteArray]

/-- A plain character is one byte. -/
theorem bytes_of_plain {c : Char} (h : c.toNat < 0x80) : String.utf8EncodeChar c = [c.val.toUInt8] := by
  refine String.utf8EncodeChar_eq_singleton ?_
  rw [Char.utf8Size_eq_one_iff, UInt32.le_iff_toNat_le]
  have hval : c.toNat = c.val.toNat := rfl
  have hbound : (127 : UInt32).toNat = 127 := rfl
  omega

theorem toNat_byte {c : Char} (h : c.toNat < 0x80) : c.val.toUInt8.toNat = c.toNat := by
  have hval : c.toNat = c.val.toNat := rfl
  rw [UInt32.toNat_toUInt8, ← hval]
  omega

/-- Plain characters come back from their bytes. -/
theorem decode_bytes {s : String} (h : IsPlainText s.toList) :
    decode s.toUTF8.toList = .ok s.toList := by
  have hbytes : s.toUTF8.toList = s.toList.map fun c => c.val.toUInt8 := by
    rw [bytes_eq, List.map_eq_flatMap]
    exact List.flatMap_congr fun c hc => bytes_of_plain (h c hc).1
  have hplain : ∀ b ∈ s.toUTF8.toList, b < 0x80 := by
    rw [hbytes, List.forall_mem_map]
    intro c hc
    rw [UInt8.lt_iff_toNat_lt, toNat_byte (h c hc).1]
    exact (h c hc).1
  rw [decode_ascii hplain, hbytes, List.map_map]
  congr 1
  refine (List.map_congr_left fun c hc => ?_).trans (List.map_id _)
  rw [Function.comp_apply, toNat_byte (h c hc).1, Char.ofNat_toNat, id]

/-- Where no carriage return stands, line breaks are line feeds already. -/
theorem unifyBreaks_eq {cs : List Char} (h : IsPlainText cs) : unifyBreaks cs = cs := by
  induction cs with
  | nil => rfl
  | cons c cs ih =>
    obtain ⟨hc, hcs⟩ := List.forall_mem_cons.mp h
    rw [unifyBreaks.eq_4 c cs (fun _ hreturn _ => hc.2 hreturn) hc.2, ih hcs]

end Text

/-! ## Plain listings -/

theorem isPlainText_of_isPlain {cs : List Char} (h : ∀ c ∈ cs, Number.IsPlain c) : Text.IsPlainText cs := by
  intro c hc
  obtain ⟨hlow, hhigh⟩ := h c hc
  refine ⟨hhigh, ?_⟩
  rintro rfl
  exact absurd hlow (by decide)

/-- The mnemonics of the operations are plain words. -/
theorem Opcode.isPlain_of_mem_word (op : Opcode) : ∀ c ∈ op.word.toList, Number.IsPlain c := by
  cases op <;> simp [word, Number.IsPlain]

theorem Operand.isPlainText_text (x : Operand) : Text.IsPlainText x.text.toList := by
  refine isPlainText_of_isPlain ?_
  cases x with
  | int n => exact Number.isPlain_of_mem_toString
  | float x => exact Number.isPlain_of_mem_literal x

/-- The mnemonic of the instruction is that of an operation. -/
def Instruction.IsListed (i : Instruction) : Prop := ∃ op operand, i = .of op operand

theorem Instruction.IsListed.isPlainText_text {i : Instruction} (h : i.IsListed) :
    Text.IsPlainText i.text.toList := by
  obtain ⟨op, operand, rfl⟩ := h
  have hword := isPlainText_of_isPlain op.isPlain_of_mem_word
  cases operand with
  | none => exact hword
  | some x =>
    have hblank : Text.IsPlainText " ".toList := by simp [Text.IsPlainText]
    change Text.IsPlainText (op.word ++ " " ++ x.text).toList
    rw [String.toList_append, String.toList_append]
    exact (hword.append hblank).append x.isPlainText_text

namespace Program

variable {p : Program}

/-- A listing of known operations is plain text. -/
theorem isPlainText_render (h : ∀ i ∈ p, i.IsListed) : Text.IsPlainText p.render.toList := by
  intro c hc
  rw [toList_render] at hc
  obtain ⟨line, hline, hc⟩ := List.mem_flatMap.mp hc
  obtain ⟨i, hi, rfl⟩ := List.mem_map.mp hline
  have hend : Text.IsPlainText ['\n'] := by simp [Text.IsPlainText]
  exact (h i (Array.mem_toList_iff.mp hi)).isPlainText_text.append hend c hc

/-- A listing of known operations comes back from its bytes, and no line break in it is changed. -/
theorem decode_render (h : ∀ i ∈ p, i.IsListed) :
    ∃ cs, Text.decode p.render.toUTF8.toList = .ok cs ∧ String.ofList (Text.unifyBreaks cs) = p.render := by
  refine ⟨_, Text.decode_bytes (isPlainText_render h), ?_⟩
  rw [Text.unifyBreaks_eq (isPlainText_render h), String.ofList_toList]

end Program

end StackPrimer
