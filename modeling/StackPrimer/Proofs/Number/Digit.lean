import Mathlib.Data.List.Induction
import Mathlib.Tactic.Ring
import StackPrimer.Number.Reading

/-!
# Digits and what they stand for

Plain digits, from zero to nine, are read as they are written: a run of them as the list of their
values, and this list as a number in tens.

Results:
* `digitRun_append`: a run of digits ends where something else begins.
* `readInt?_toString`: exactly the whole numbers of up to 4300 digits are read as they are written.
* `natAbs_lt_of_readInt?`: no others are read at all.
-/

namespace StackPrimer.Number

theorem tenTo_eq (n : Nat) : tenTo n = 10 ^ n := rfl

/-! ## Plain digits -/

/-- The value of a plain digit. -/
def digitValue (c : Char) : Nat := c.toNat - '0'.toNat

theorem isDigit_iff {c : Char} : c.isDigit = true ↔ 48 ≤ c.toNat ∧ c.toNat ≤ 57 := by
  rw [Char.isDigit, Bool.and_eq_true, decide_eq_true_eq, decide_eq_true_eq]
  exact Iff.rfl

theorem plainDigit?_eq (c : Char) :
    plainDigit? c = if c.isDigit then some (digitValue c) else none := by
  have hiff : ('0' ≤ c ∧ c ≤ '9') ↔ c.isDigit = true := isDigit_iff.symm
  simp only [plainDigit?, hiff, digitValue]

theorem plainDigit?_lt {c : Char} {d : Nat} (h : plainDigit? c = some d) : d < 10 := by
  rw [plainDigit?_eq] at h
  split at h
  · rename_i hc
    have hc := isDigit_iff.mp hc
    have hzero : '0'.toNat = 48 := by decide
    have hd : d = digitValue c := (Option.some.inj h).symm
    unfold digitValue at hd
    omega
  · cases h

/-- A run of digits ends where no digit and no underscore follows. -/
theorem digitRun_append {cs : List Char} (rest : List Char) (h : ∀ c ∈ cs, c.isDigit = true)
    (hrest : ∀ c, rest.head? = some c → c.isDigit = false ∧ c ≠ '_') :
    digitRun (cs ++ rest) = (cs.map digitValue, rest) := by
  induction cs with
  | nil =>
    cases rest with
    | nil => rfl
    | cons c rest =>
      rw [List.nil_append, digitRun, plainDigit?_eq, (hrest c rfl).1]
      rfl
  | cons c cs ih =>
    obtain ⟨hc, hcs⟩ := List.forall_mem_cons.mp h
    have hnext : (cs ++ rest).head? ≠ some '_' := by
      cases cs with
      | nil =>
        intro hhead
        exact (hrest _ hhead).2 rfl
      | cons next cs =>
        intro hhead
        obtain rfl : next = '_' := by simpa using hhead
        exact absurd (hcs _ (List.mem_cons_self ..)) (by decide)
    rw [List.cons_append, digitRun.eq_def]
    simp only [plainDigit?_eq, hc, if_true]
    split
    · rename_i heq
      rw [heq] at hnext
      exact absurd rfl hnext
    · rw [ih hcs, List.map_cons]

/-- The digits of a run are below ten. -/
theorem lt_ten_of_mem_digitRun {cs : List Char} {d : Nat} (h : d ∈ (digitRun cs).1) : d < 10 := by
  fun_induction digitRun cs with
  | case1 => simp at h
  | case2 => simp at h
  | case3 c first hc next rest hnext ds rest' hrun ih =>
    rcases List.mem_cons.mp h with rfl | h
    · exact plainDigit?_lt hc
    · rw [hrun] at ih
      exact ih h
  | case4 c first hc =>
    obtain rfl := List.mem_singleton.mp h
    exact plainDigit?_lt hc
  | case5 c first hc cs _ ds rest hrun ih =>
    rcases List.mem_cons.mp h with rfl | h
    · exact plainDigit?_lt hc
    · rw [hrun] at ih
      exact ih h

/-! ## Numbers in tens -/

theorem ofDigits_map (cs : List Char) :
    ofDigits (cs.map digitValue) = Nat.ofDigitChars 10 cs 0 := by
  rw [ofDigits, Nat.ofDigitChars_eq_foldl, List.foldl_map]
  rfl

@[simp] theorem ofDigits_nil : ofDigits [] = 0 := rfl

/-- Digits that are added at the end shift those in front. -/
theorem ofDigits_append (ds es : List Nat) :
    ofDigits (ds ++ es) = ofDigits ds * 10 ^ es.length + ofDigits es := by
  induction es using List.reverseRecOn with
  | nil => simp
  | append_singleton es e ih =>
    rw [← List.append_assoc, ofDigits, List.foldl_append]
    change 10 * ofDigits (ds ++ es) + e = _
    have hes : ofDigits (es ++ [e]) = 10 * ofDigits es + e := by
      rw [ofDigits, List.foldl_append]
      rfl
    rw [ih, hes, List.length_append, List.length_singleton, pow_succ]
    ring

theorem ofDigits_cons (d : Nat) (ds : List Nat) :
    ofDigits (d :: ds) = d * 10 ^ ds.length + ofDigits ds := by
  have h := ofDigits_append [d] ds
  simpa [ofDigits] using h

@[simp] theorem ofDigits_replicate_zero (n : Nat) : ofDigits (List.replicate n 0) = 0 := by
  induction n with
  | zero => rfl
  | succ n ih => rw [List.replicate_succ, ofDigits_cons, ih, Nat.zero_mul]

theorem ofDigits_lt {ds : List Nat} (h : ∀ d ∈ ds, d < 10) : ofDigits ds < 10 ^ ds.length := by
  induction ds with
  | nil => simp
  | cons d ds ih =>
    obtain ⟨hd, hds⟩ := List.forall_mem_cons.mp h
    have hlt := ih hds
    rw [ofDigits_cons, List.length_cons, pow_succ]
    have hle : d * 10 ^ ds.length ≤ 9 * 10 ^ ds.length := Nat.mul_le_mul_right _ (by omega)
    omega

/-- Zeros in front do not count. -/
theorem ofDigits_dropWhile (ds : List Nat) : ofDigits (ds.dropWhile (· == 0)) = ofDigits ds := by
  induction ds with
  | nil => rfl
  | cons d ds ih =>
    by_cases hd : d = 0
    · rw [List.dropWhile_cons_of_pos (by simp [hd]), ih, ofDigits_cons, hd]
      simp
    · rw [List.dropWhile_cons_of_neg (by simp [hd])]

/-- A number with its first digit in front is not below the power of ten of that digit's place. -/
theorem le_ofDigits {d : Nat} (hd : d ≠ 0) (ds : List Nat) : 10 ^ ds.length ≤ ofDigits (d :: ds) := by
  rw [ofDigits_cons]
  have hle : 1 * 10 ^ ds.length ≤ d * 10 ^ ds.length := Nat.mul_le_mul_right _ (by omega)
  omega

/-! ## Whole numbers -/

/-- A character that is plain and no blank. -/
def IsPlain (c : Char) : Prop := 0x20 < c.toNat ∧ c.toNat < 0x80

instance (c : Char) : Decidable (IsPlain c) := inferInstanceAs (Decidable (_ ∧ _))

theorem isPlain_of_isDigit {c : Char} (h : c.isDigit = true) : IsPlain c := by
  have hc := isDigit_iff.mp h
  unfold IsPlain
  omega

/-- Nothing is trimmed off plain characters. -/
theorem trimmed_of_isPlain {cs : List Char} (h : ∀ c ∈ cs, IsPlain c) : trimmed cs = cs := by
  have hplain : cs.map plainChar = cs := by
    rw [List.map_congr_left (g := id), List.map_id]
    intro c hc
    rw [plainChar, if_pos (h c hc).2, id]
  have hmargin : ∀ ds : List Char, (∀ c ∈ ds, IsPlain c) → ds.dropWhile isMargin = ds := by
    intro ds hds
    cases ds with
    | nil => rfl
    | cons d ds =>
      have hd : 0x20 < d.toNat := (hds d (List.mem_cons_self ..)).1
      have hspace : d ≠ ' ' := by
        rintro rfl
        exact absurd hd (by decide)
      have hnot : isMargin d = false := by
        simp [isMargin, hspace]
        omega
      rw [List.dropWhile_cons_of_neg (by simp [hnot])]
  rw [trimmed, hplain, hmargin cs h, hmargin, List.reverse_reverse]
  intro c hc
  exact h c (List.mem_reverse.mp hc)

/-- A text that does not begin with a sign is all behind the sign. -/
theorem signed_of_isDigit {c : Char} (h : c.isDigit = true) (cs : List Char) :
    signed (c :: cs) = (false, c :: cs) := by
  unfold signed
  split
  · rename_i heq
    obtain ⟨rfl, -⟩ := List.cons.inj heq
    exact absurd h (by decide)
  · rename_i heq
    obtain ⟨rfl, -⟩ := List.cons.inj heq
    exact absurd h (by decide)
  · rfl

/-- A minus sign in front of some characters, or none. -/
def withSign (negative : Bool) (cs : List Char) : List Char := if negative then '-' :: cs else cs

theorem signed_withSign (negative : Bool) {c : Char} (h : c.isDigit = true) (cs : List Char) :
    signed (withSign negative (c :: cs)) = (negative, c :: cs) := by
  cases negative with
  | true => rfl
  | false => exact signed_of_isDigit h cs

theorem isPlain_of_mem_withSign {negative : Bool} {cs : List Char} (h : ∀ c ∈ cs, IsPlain c) :
    ∀ c ∈ withSign negative cs, IsPlain c := by
  cases negative with
  | true => exact List.forall_mem_cons.mpr ⟨by decide, h⟩
  | false => exact h

theorem isDigit_of_mem_toDigits {n : Nat} {c : Char} (h : c ∈ Nat.toDigits 10 n) : c.isDigit = true :=
  Nat.isDigit_of_mem_toDigits (by decide) (by decide) h

theorem toList_toString (n : Int) :
    (toString n).toList = withSign (decide (n < 0)) (Nat.toDigits 10 n.natAbs) := by
  cases n with
  | ofNat n => exact Nat.toList_repr
  | negSucc n =>
    change ("-" ++ Nat.repr (n + 1)).toList = _
    rw [String.toList_append, Nat.toList_repr, Int.natAbs_negSucc,
      decide_eq_true (Int.negSucc_lt_zero n)]
    simp [withSign]

theorem isPlain_of_mem_toString {n : Int} : ∀ c ∈ (toString n).toList, IsPlain c := by
  rw [toList_toString]
  exact isPlain_of_mem_withSign fun c hc => isPlain_of_isDigit (isDigit_of_mem_toDigits hc)

/-- A whole number of up to 4300 digits is read as it is written; one with more is not read. -/
theorem readInt?_toString (n : Int) :
    readInt? (toString n) = if n.natAbs < tenTo digitLimit then some n else none := by
  have hdigits : ∀ c ∈ Nat.toDigits 10 n.natAbs, c.isDigit = true := fun c => isDigit_of_mem_toDigits
  obtain ⟨c, cs, hcons⟩ := List.exists_cons_of_ne_nil (Nat.toDigits_ne_nil (n := n.natAbs) (b := 10))
  have hrun : digitRun (c :: cs) = (digitValue c :: cs.map digitValue, []) := by
    have hrun := digitRun_append [] hdigits (by simp)
    rwa [hcons, List.append_nil] at hrun
  have hvalue : ofDigits (digitValue c :: cs.map digitValue) = n.natAbs := by
    rw [← List.map_cons, ← hcons, ofDigits_map, Nat.ofDigitChars_ten_toDigits]
  have hlength : (digitValue c :: cs.map digitValue).length ≤ digitLimit ↔
      n.natAbs < tenTo digitLimit := by
    rw [tenTo_eq, ← Nat.length_toDigits_le_iff (by decide) (by decide), hcons]
    simp
  have hsigned : signed (trimmed (toString n).toList) = (decide (n < 0), c :: cs) := by
    rw [trimmed_of_isPlain isPlain_of_mem_toString, toList_toString, hcons]
    exact signed_withSign _ (hdigits c (by simp [hcons])) cs
  have hsign : (if decide (n < 0) = true then -((n.natAbs : Nat) : Int) else n.natAbs) = n := by
    split
    · rename_i hn
      have hn : n < 0 := of_decide_eq_true hn
      omega
    · rename_i hn
      have hn : ¬ n < 0 := of_decide_eq_false (Bool.eq_false_iff.mpr hn)
      omega
  unfold readInt?
  simp only [hsigned, hrun, hvalue, hsign]
  by_cases hn : n.natAbs < tenTo digitLimit
  · rw [if_pos hn, if_neg (by have := hlength.mpr hn; omega)]
  · rw [if_neg hn, if_pos (by have := mt hlength.mp hn; omega)]

/-- No whole number of more than 4300 digits is read. -/
theorem natAbs_lt_of_readInt? {s : String} {n : Int} (h : readInt? s = some n) :
    n.natAbs < tenTo digitLimit := by
  unfold readInt? at h
  obtain ⟨negative, cs⟩ := signed (trimmed s.toList)
  dsimp only at h
  split at h
  · cases h
  · rename_i ds hnil hrun
    split at h
    · cases h
    · rename_i hlength
      have hlt : ofDigits ds < 10 ^ ds.length :=
        ofDigits_lt fun d hd => lt_ten_of_mem_digitRun (by rw [hrun]; exact hd)
      have hle : 10 ^ ds.length ≤ 10 ^ digitLimit :=
        Nat.pow_le_pow_right (by decide) (by omega)
      have habs : n.natAbs = ofDigits ds := by
        have hn := Option.some.inj h
        split at hn <;> omega
      rw [habs, tenTo_eq]
      exact hlt.trans_le hle
  · cases h

end StackPrimer.Number
