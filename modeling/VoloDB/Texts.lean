import Mathlib.Data.List.Basic
import VoloDB.WireFormat

/-!
# Texts in bytes

A number is written in decimal and read back digit by digit (`decimal`). A
sequence of **lines** is written with a line break behind each, which can be
taken apart again as long as no line has a line break inside
(`unlines_append_inj`).

A text is **solid** if nothing in it takes it apart: it has no spaces, no
commas and no control characters. The numbers are.
-/

/-- The bytes of two texts, one behind the other. -/
theorem ascii_append (s t : String) : ascii (s ++ t) = ascii s ++ ascii t := by
  unfold ascii
  rw [String.toList_append, List.map_append]

/-! ## Numbers -/

/-- **The number a decimal text says.** -/
def decimal (text : Bytes) : Nat :=
  text.foldl (fun n digit => 10 * n + (digit.toNat - 48)) 0

/-- The digits of a number. -/
theorem toList_toString (n : Nat) : (toString n).toList = Nat.toDigits 10 n := by
  rw [Nat.toString_eq_repr, Nat.toList_repr]

/-- A digit is the byte of its character. -/
theorem toNat_ofNat_of_isDigit {c : Char} (h : c.isDigit) :
    48 ≤ c.toNat ∧ (UInt8.ofNat c.toNat).toNat = c.toNat := by
  have hdigit : 48 ≤ c.toNat ∧ c.toNat ≤ 57 := by
    unfold Char.isDigit at h
    simp only [Bool.and_eq_true, decide_eq_true_eq] at h
    exact ⟨h.1, h.2⟩
  refine ⟨hdigit.1, ?_⟩
  rw [UInt8.toNat_ofNat']
  exact Nat.mod_eq_of_lt (by omega)

/-- Reading digits as bytes is reading them as characters. -/
theorem foldl_digits {digits : List Char} (h : ∀ c ∈ digits, c.isDigit) (n : Nat) :
    (digits.map (fun c => UInt8.ofNat c.toNat)).foldl
        (fun n digit => 10 * n + (digit.toNat - 48)) n
      = Nat.ofDigitChars 10 digits n := by
  induction digits generalizing n with
  | nil => rfl
  | cons c digits ih =>
    rw [List.map_cons, List.foldl_cons, ih (fun d hd => h d (List.mem_cons_of_mem c hd)),
      (toNat_ofNat_of_isDigit (h c List.mem_cons_self)).2]
    rfl

/-- **Reading a number undoes writing it.** -/
theorem decimal_ascii_toString (n : Nat) : decimal (ascii (toString n)) = n := by
  have hdigits : ∀ c ∈ Nat.toDigits 10 n, c.isDigit :=
    fun c hc => Nat.isDigit_of_mem_toDigits (by decide) (by decide) hc
  unfold decimal ascii
  rw [toList_toString, foldl_digits hdigits, Nat.ofDigitChars_ten_toDigits]

/-- A text without spaces, commas and control characters. -/
def Solid (text : Bytes) : Prop := ∀ x ∈ text, 32 < x.toNat ∧ x ≠ 44

instance (text : Bytes) : Decidable (Solid text) :=
  List.decidableBAll (fun x : UInt8 => 32 < x.toNat ∧ x ≠ 44) text

theorem Solid.append {a b : Bytes} (ha : Solid a) (hb : Solid b) : Solid (a ++ b) := by
  intro x hx
  exact (List.mem_append.mp hx).elim (ha x) (hb x)

/-- A solid text has no space. -/
theorem Solid.space_notMem {text : Bytes} (h : Solid text) : (32 : UInt8) ∉ text :=
  fun hmem => absurd (h 32 hmem).1 (by decide)

/-- Digits are solid. -/
theorem solid_ascii_toString (n : Nat) : Solid (ascii (toString n)) := by
  intro x hx
  unfold ascii at hx
  rw [toList_toString, List.mem_map] at hx
  obtain ⟨c, hc, rfl⟩ := hx
  have hdigit := toNat_ofNat_of_isDigit
    (Nat.isDigit_of_mem_toDigits (by decide) (by decide) hc)
  refine ⟨by omega, fun hcomma => ?_⟩
  have hnat := hdigit.2.symm.trans (congrArg UInt8.toNat hcomma)
  have hlow := hdigit.1.trans_eq hnat
  exact absurd hlow (by decide)

/-- **A number is solid**, whatever its sign. -/
theorem solid_ascii_toString_int (i : Int) : Solid (ascii (toString i)) := by
  cases i with
  | ofNat n => exact solid_ascii_toString n
  | negSucc n =>
    show Solid (ascii ("-" ++ toString (n + 1)))
    rw [ascii_append]
    exact Solid.append (by decide) (solid_ascii_toString (n + 1))

/-- A line is where its line break is not: two of them end together. -/
theorem append_cons_inj {a a' b b' : Bytes} {x : UInt8} (ha : x ∉ a) (ha' : x ∉ a')
    (h : a ++ x :: b = a' ++ x :: b') : a = a' ∧ b = b' := by
  induction a generalizing a' with
  | nil =>
    cases a' with
    | nil => exact ⟨rfl, (List.cons.inj h).2⟩
    | cons y a' => exact absurd ((List.cons.inj h).1 ▸ List.mem_cons_self) ha'
  | cons y a ih =>
    cases a' with
    | nil => exact absurd ((List.cons.inj h).1 ▸ List.mem_cons_self) ha
    | cons y' a' =>
      obtain ⟨rfl, hrest⟩ := List.cons.inj h
      obtain ⟨rfl, rfl⟩ := ih (fun hm => ha (List.mem_cons_of_mem y hm))
        (fun hm => ha' (List.mem_cons_of_mem y hm)) hrest
      exact ⟨rfl, rfl⟩

/-! ## Lines -/

/-- **The text of a sequence of lines.** -/
def unlines (lines : List Bytes) : Bytes := lines.flatMap (fun line => line ++ [10])

@[simp] theorem unlines_cons (line : Bytes) (lines : List Bytes) :
    unlines (line :: lines) = line ++ 10 :: unlines lines := by
  simp [unlines]

@[simp] theorem unlines_append (lines lines' : List Bytes) :
    unlines (lines ++ lines') = unlines lines ++ unlines lines' := by
  simp [unlines]

/-- The same from the other end: after the last `x`. -/
theorem append_cons_inj_right {a a' b b' : Bytes} {x : UInt8} (hb : x ∉ b) (hb' : x ∉ b')
    (h : a ++ x :: b = a' ++ x :: b') : a = a' ∧ b = b' := by
  have hreverse : b.reverse ++ x :: a.reverse = b'.reverse ++ x :: a'.reverse := by
    have := congrArg List.reverse h
    simpa using this
  obtain ⟨hbs, has⟩ := append_cons_inj (by simpa using hb) (by simpa using hb') hreverse
  exact ⟨List.reverse_inj.mp has, List.reverse_inj.mp hbs⟩

/-- **Lines can be taken apart again**, up to the text behind the last. -/
theorem unlines_append_inj {lines lines' : List Bytes} {tail tail' : Bytes}
    (hlines : ∀ line ∈ lines, (10 : UInt8) ∉ line)
    (hlines' : ∀ line ∈ lines', (10 : UInt8) ∉ line)
    (htail : (10 : UInt8) ∉ tail) (htail' : (10 : UInt8) ∉ tail')
    (h : unlines lines ++ tail = unlines lines' ++ tail') : lines = lines' ∧ tail = tail' := by
  induction lines generalizing lines' with
  | nil =>
    cases lines' with
    | nil => exact ⟨rfl, h⟩
    | cons line' lines' =>
      -- The other text has a line break, this one has none.
      refine absurd ?_ htail
      rw [show tail = _ from h, unlines_cons]
      simp
  | cons line lines ih =>
    cases lines' with
    | nil =>
      refine absurd ?_ htail'
      rw [show tail' = _ from h.symm, unlines_cons]
      simp
    | cons line' lines' =>
      rw [unlines_cons, unlines_cons, List.append_assoc, List.append_assoc] at h
      obtain ⟨rfl, hrest⟩ := append_cons_inj (hlines line List.mem_cons_self)
        (hlines' line' List.mem_cons_self) h
      obtain ⟨rfl, rfl⟩ := ih (fun l hl => hlines l (List.mem_cons_of_mem _ hl))
        (fun l hl => hlines' l (List.mem_cons_of_mem _ hl)) hrest
      exact ⟨rfl, rfl⟩
