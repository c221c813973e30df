import Mathlib.Data.List.Infix
import Mathlib.Tactic.IntervalCases
import Mathlib.Data.Nat.Digits

/-!
# The Go string library, on the characters of a string

The backup code builds every object path of a backup out of strings: it formats ids with
`strconv.FormatInt`, and it moves a path from the Milvus root to the backup root, and splices
a group id into it, with `strings.Replace(s, old, new, 1)`. This file gives both their Go
meaning, on the character list of a Lean `String`, and proves the few facts about them that
the path layout rests on.

* `MilvusBackup.Go.replaceFirst` replaces the **first** occurrence of `old`, wherever it is.
  Where `old` has no separator in it, that occurrence is in the first `/`-separated part of the
  string that holds it (`MilvusBackup.Go.replaceFirstChars_append_cons` and
  `MilvusBackup.Go.replaceFirstChars_append_of_occurs`), which is the whole reason a group id can
  land in the wrong part of a path.
* `MilvusBackup.Go.formatInt` is the decimal rendering of an `int64`; it has no `/` in it and
  it is injective (`MilvusBackup.Go.formatInt_injective`), read back by
  `MilvusBackup.Go.decodeInt`.
-/

namespace MilvusBackup

namespace Go

/-! ### `strings.Replace` with a count of one -/

/-- The first occurrence of `old` in a character list replaced by `new`; an empty `old` occurs
at the start, as in Go. -/
def replaceFirstChars (old new : List Char) (s : List Char) : List Char :=
  if old.isPrefixOf s then new ++ s.drop old.length
  else match s with
    | [] => []
    | c :: s => c :: replaceFirstChars old new s

/-- `strings.Replace(s, old, new, 1)`. -/
def replaceFirst (s old new : String) : String :=
  ⟨replaceFirstChars old.data new.data s.data⟩

@[simp] theorem replaceFirst_data (s old new : String) :
    (replaceFirst s old new).data = replaceFirstChars old.data new.data s.data := rfl

section Replace

variable {old new a b : List Char} {sep : Char}

theorem replaceFirstChars_head (h : old <+: a) :
    replaceFirstChars old new a = new ++ a.drop old.length := by
  unfold replaceFirstChars
  rw [if_pos (List.isPrefixOf_iff_prefix.mpr h)]

theorem replaceFirstChars_cons {c : Char} (h : ¬old <+: c :: a) :
    replaceFirstChars old new (c :: a) = c :: replaceFirstChars old new a := by
  conv_lhs => unfold replaceFirstChars
  rw [if_neg (mt List.isPrefixOf_iff_prefix.mp h)]

/-- A prefix of `x ++ sep :: y` is a prefix of `x`, or has `sep` in it. -/
theorem prefix_or_mem_of_prefix_append_cons {x y : List Char} (h : old <+: x ++ sep :: y) :
    old <+: x ∨ sep ∈ old := by
  induction x generalizing old with
  | nil =>
    rcases List.prefix_cons_iff.mp h with rfl | ⟨t, rfl, -⟩
    · exact .inl List.nil_prefix
    · exact .inr (List.mem_cons_self _ _)
  | cons d x ih =>
    rcases List.prefix_cons_iff.mp h with rfl | ⟨t, rfl, ht⟩
    · exact .inl List.nil_prefix
    · exact (ih ht).imp (fun h => List.cons_prefix_cons.mpr ⟨rfl, h⟩) (List.mem_cons_of_mem _)

/-- **The replacement skips a part that does not hold `old`**: when `old` has no separator in
it and does not occur in `a`, its first occurrence in `a ++ sep :: b` is in `b`. -/
theorem replaceFirstChars_append_cons (ha : ¬old <:+: a) (hsep : sep ∉ old) :
    replaceFirstChars old new (a ++ sep :: b) = a ++ sep :: replaceFirstChars old new b := by
  induction a with
  | nil =>
    have hp : ¬old <+: sep :: b := fun h =>
      (prefix_or_mem_of_prefix_append_cons (show old <+: [] ++ sep :: b from h)).elim
        (fun h => ha (List.prefix_nil.mp h ▸ List.infix_rfl)) hsep
    rw [List.nil_append, replaceFirstChars_cons hp, List.nil_append]
  | cons c a ih =>
    have hc : ¬old <+: c :: a ∧ ¬old <:+: a := not_or.mp (mt List.infix_cons_iff.mpr ha)
    have hp : ¬old <+: c :: (a ++ sep :: b) := fun h =>
      (prefix_or_mem_of_prefix_append_cons (show old <+: c :: a ++ sep :: b from h)).elim hc.1 hsep
    rw [List.cons_append, replaceFirstChars_cons hp, ih hc.2, List.cons_append]

/-- **The replacement stays inside the first part that holds `old`**. -/
theorem replaceFirstChars_append_of_occurs (ha : old <:+: a) :
    replaceFirstChars old new (a ++ b) = replaceFirstChars old new a ++ b := by
  induction a with
  | nil =>
    obtain rfl := List.infix_nil.mp ha
    rw [replaceFirstChars_head List.nil_prefix, replaceFirstChars_head List.nil_prefix]
    simp
  | cons c a ih =>
    by_cases hp : old <+: c :: a
    · rw [replaceFirstChars_head (hp.trans (List.prefix_append _ _)),
        replaceFirstChars_head hp, List.drop_append_of_le_length hp.length_le,
        List.append_assoc]
    · have hi : old <:+: a := (List.infix_cons_iff.mp ha).resolve_left hp
      have hp' : ¬old <+: c :: (a ++ b) := fun h => hp <|
        List.prefix_of_prefix_length_le h (List.prefix_append _ _)
          (hi.length_le.trans (Nat.le_succ _))
      rw [List.cons_append, replaceFirstChars_cons hp', ih hi, replaceFirstChars_cons hp,
        List.cons_append]

/-- The first occurrence of a part, replaced when it is the whole head of the list. -/
theorem replaceFirstChars_append_self : replaceFirstChars old new (old ++ b) = new ++ b := by
  rw [replaceFirstChars_head (List.prefix_append _ _), List.drop_left]

end Replace

/-! ### Separated parts -/

/-- **A separator splits a list uniquely** when neither head holds it. -/
theorem append_cons_eq_iff {x x' y y' : List Char} {sep : Char} (hx : sep ∉ x) (hx' : sep ∉ x') :
    x ++ sep :: y = x' ++ sep :: y' ↔ x = x' ∧ y = y' := by
  induction x generalizing x' with
  | nil =>
    cases x' with
    | nil => simp
    | cons c x' =>
      simp only [List.mem_cons, not_or] at hx'
      exact iff_of_false (fun h => hx'.1 (List.cons.inj h).1) (fun h => List.cons_ne_nil _ _ h.1.symm)
  | cons c x ih =>
    simp only [List.mem_cons, not_or] at hx
    cases x' with
    | nil => exact iff_of_false (fun h => hx.1 (List.cons.inj h).1.symm) (fun h => List.cons_ne_nil _ _ h.1)
    | cons c' x' =>
      simp only [List.mem_cons, not_or] at hx'
      simp [ih hx.2 hx'.2, and_assoc]

/-- The same split, read from the end: the part after the last separator is determined. -/
theorem append_cons_eq_iff_of_not_mem_right {x x' y y' : List Char} {sep : Char} (hy : sep ∉ y)
    (hy' : sep ∉ y') : x ++ sep :: y = x' ++ sep :: y' ↔ x = x' ∧ y = y' := by
  have h := @append_cons_eq_iff y.reverse y'.reverse x.reverse x'.reverse sep
    (by simpa using hy) (by simpa using hy')
  rw [← List.reverse_inj, List.reverse_append, List.reverse_cons, List.reverse_append,
    List.reverse_cons, List.append_assoc, List.append_assoc, List.singleton_append,
    List.singleton_append, h, List.reverse_inj, List.reverse_inj, and_comm]

/-! ### `strconv.FormatInt` -/

/-- `strconv.FormatInt(i, 10)`: the decimal digits, after a `-` for a negative value. -/
def formatInt (i : Int) : String := toString i

/-- The digits read back into a number, as `strconv.ParseInt` reads them. -/
def decodeDigits (l : List Char) : Nat :=
  l.foldl (fun n c => n * 10 + (c.toNat - '0'.toNat)) 0

/-- A decimal rendering read back into an integer. -/
def decodeInt (l : List Char) : Int :=
  if l.head? = some '-' then -(decodeDigits l.tail : Int) else decodeDigits l

theorem digitChar_isDigit {d : Nat} (h : d < 10) : (Nat.digitChar d).isDigit := by
  interval_cases d <;> rfl

theorem digitChar_sub_zero {d : Nat} (h : d < 10) : (Nat.digitChar d).toNat - '0'.toNat = d := by
  interval_cases d <;> rfl

theorem toDigitsCore_isDigit (fuel n : Nat) (ds : List Char) (hds : ∀ c ∈ ds, c.isDigit) :
    ∀ c ∈ Nat.toDigitsCore 10 fuel n ds, c.isDigit := by
  induction fuel generalizing n ds with
  | zero => exact hds
  | succ fuel ih =>
    have hd : ∀ c ∈ Nat.digitChar (n % 10) :: ds, c.isDigit :=
      List.forall_mem_cons.mpr ⟨digitChar_isDigit (Nat.mod_lt n (by norm_num)), hds⟩
    simp only [Nat.toDigitsCore]
    split
    · exact hd
    · exact ih _ _ hd

theorem toDigitsCore_append (b fuel n : Nat) (ds : List Char) :
    Nat.toDigitsCore b fuel n ds = Nat.toDigitsCore b fuel n [] ++ ds := by
  induction fuel generalizing n ds with
  | zero => rfl
  | succ fuel ih =>
    simp only [Nat.toDigitsCore]
    split
    · rfl
    · rw [ih _ (_ :: ds), ih _ [_], List.append_assoc, List.singleton_append]

/-- The fuel of `Nat.toDigitsCore` does not matter once it exceeds the number. -/
theorem toDigitsCore_fuel {b : Nat} (hb : 2 ≤ b) {f₁ f₂ n : Nat} (h₁ : n < f₁) (h₂ : n < f₂)
    (ds : List Char) : Nat.toDigitsCore b f₁ n ds = Nat.toDigitsCore b f₂ n ds := by
  induction f₁ generalizing f₂ n ds with
  | zero => omega
  | succ f₁ ih =>
    obtain ⟨f₂, rfl⟩ : ∃ k, f₂ = k + 1 := ⟨f₂ - 1, by omega⟩
    simp only [Nat.toDigitsCore]
    split
    · rfl
    · have hn : 0 < n := Nat.pos_of_ne_zero (by rintro rfl; simp_all)
      have : n / b < n := Nat.div_lt_self hn (by omega)
      exact ih (by omega) (by omega) _

/-- The last digit comes off the decimal rendering. -/
theorem toDigits_ten (n : Nat) : Nat.toDigits 10 n =
    (if n / 10 = 0 then [] else Nat.toDigits 10 (n / 10)) ++ [Nat.digitChar (n % 10)] := by
  rw [Nat.toDigits, Nat.toDigitsCore]
  split
  · rfl
  · rename_i h
    rw [toDigitsCore_append, Nat.toDigits,
      toDigitsCore_fuel (by norm_num) (show n / 10 < n by omega)
        (show n / 10 < n / 10 + 1 by omega)]

theorem decodeDigits_toDigits (n : Nat) : decodeDigits (Nat.toDigits 10 n) = n := by
  induction n using Nat.strong_induction_on with
  | _ n ih =>
    have hd := digitChar_sub_zero (Nat.mod_lt n (show 10 > 0 by norm_num))
    rw [toDigits_ten, decodeDigits, List.foldl_append]
    split
    · simp only [List.foldl_nil, List.foldl_cons, hd]
      omega
    · rw [← decodeDigits, ih _ (Nat.div_lt_self (by omega) (by norm_num))]
      simp only [List.foldl_nil, List.foldl_cons, hd]
      omega

theorem isDigit_of_mem_toDigits {n : Nat} {c : Char} (h : c ∈ Nat.toDigits 10 n) : c.isDigit :=
  toDigitsCore_isDigit _ n [] (by simp) c h

@[simp] theorem formatInt_ofNat_data (n : Nat) : (formatInt n).data = Nat.toDigits 10 n := rfl

@[simp] theorem formatInt_negSucc_data (n : Nat) :
    (formatInt (Int.negSucc n)).data = '-' :: Nat.toDigits 10 (n + 1) := rfl

theorem decodeInt_formatInt (i : Int) : decodeInt (formatInt i).data = i := by
  cases i with
  | ofNat n =>
    have hh : (Nat.toDigits 10 n).head? ≠ some '-' := fun h =>
      absurd (isDigit_of_mem_toDigits (List.mem_of_mem_head? h)) (by decide)
    simp only [Int.ofNat_eq_coe, formatInt_ofNat_data, decodeInt, if_neg hh,
      decodeDigits_toDigits]
  | negSucc n =>
    simp only [formatInt_negSucc_data, decodeInt, List.head?_cons, if_true, List.tail_cons,
      decodeDigits_toDigits]
    rfl

/-- **Decimal rendering is injective**: two ids with the same digits are the same id. -/
theorem formatInt_injective : Function.Injective formatInt := fun a b h => by
  rw [← decodeInt_formatInt a, ← decodeInt_formatInt b, h]

/-- A decimal rendering has no `/` in it, so it never spans two parts of a path. -/
theorem slash_not_mem_formatInt (i : Int) : '/' ∉ (formatInt i).data := by
  have hs : ¬('/' : Char).isDigit := by decide
  cases i with
  | ofNat n => exact fun h => hs (isDigit_of_mem_toDigits h)
  | negSucc n =>
    rw [formatInt_negSucc_data, List.mem_cons, not_or]
    exact ⟨by decide, fun h => hs (isDigit_of_mem_toDigits h)⟩

theorem formatInt_ne_nil (i : Int) : (formatInt i).data ≠ [] := by
  cases i with
  | ofNat n => simp [toDigits_ten n]
  | negSucc n => simp

theorem mem_formatInt {i : Int} {c : Char} (h : c ∈ (formatInt i).data) :
    c.isDigit ∨ c = '-' := by
  cases i with
  | ofNat n => exact .inl (isDigit_of_mem_toDigits h)
  | negSucc n =>
    rcases List.mem_cons.mp h with h | h
    · exact .inr h
    · exact .inl (isDigit_of_mem_toDigits h)

/-- A decimal rendering does not occur in a word with no digit and no `-`. -/
theorem formatInt_not_occurs {i : Int} {w : List Char}
    (hw : ∀ c ∈ w, c.isDigit = false ∧ c ≠ '-') : ¬(formatInt i).data <:+: w := fun h => by
  obtain ⟨c, hc⟩ := List.exists_mem_of_ne_nil _ (formatInt_ne_nil i)
  have hcw := hw c (h.subset hc)
  rcases mem_formatInt hc with hd | hd
  · exact absurd hd (by simp [hcw.1])
  · exact hcw.2 hd

/-! ### The other calls of the string library -/

/-- Every non-overlapping occurrence of `old`, from the left, replaced by `new`; an empty `old`
occurs before each character and at the end, as in Go. Each step but the last consumes a
character, so one more than the length of the list is fuel enough. -/
def replaceAllChars (old new : List Char) : Nat → List Char → List Char
  | 0, s => s
  | _ + 1, [] => if old = [] then new else []
  | n + 1, c :: s =>
    if old = [] then new ++ c :: replaceAllChars old new n s
    else if old.isPrefixOf (c :: s) then new ++ replaceAllChars old new n ((c :: s).drop old.length)
    else c :: replaceAllChars old new n s

/-- `strings.Replace(s, old, new, -1)`. -/
def replaceAll (s old new : String) : String :=
  ⟨replaceAllChars old.data new.data (s.length + 1) s.data⟩

/-- Replacing every occurrence of one character by nothing removes it, given fuel for each
character. -/
theorem replaceAllChars_single (c : Char) :
    ∀ (n : Nat) (l : List Char), l.length ≤ n → replaceAllChars [c] [] n l = l.filter (· ≠ c)
  | 0, [], _ => rfl
  | _ + 1, [], _ => rfl
  | n + 1, d :: l, h => by
    have ih := replaceAllChars_single c n l (by simpa using h)
    by_cases hd : d = c
    · subst hd
      simp [replaceAllChars, ih]
    · simp [replaceAllChars, ih, hd, Ne.symm hd]

/-- `strings.Replace(s, c, "", -1)` removes every `c`. -/
theorem replaceAll_single (s : String) (c : Char) :
    replaceAll s ⟨[c]⟩ "" = ⟨s.data.filter (· ≠ c)⟩ :=
  congrArg String.mk (replaceAllChars_single c _ _ (Nat.le_succ _))

/-- The parts of a character list between the occurrences of `sep`. -/
def splitChars (sep : Char) : List Char → List (List Char)
  | [] => [[]]
  | c :: s =>
    if c = sep then [] :: splitChars sep s
    else match splitChars sep s with
      | [] => [[c]]
      | w :: ws => (c :: w) :: ws

/-- `strings.Split(s, sep)` for a one-character separator. -/
def split (s : String) (sep : Char) : List String := (splitChars sep s.data).map String.mk

theorem splitChars_ne_nil (sep : Char) : ∀ l : List Char, splitChars sep l ≠ []
  | [] => List.cons_ne_nil _ _
  | c :: l => by
    unfold splitChars
    split
    · exact List.cons_ne_nil _ _
    · split <;> exact List.cons_ne_nil _ _

/-- A list holding the separator splits into at least two parts. -/
theorem two_le_length_splitChars {sep : Char} : ∀ {l : List Char}, sep ∈ l →
    2 ≤ (splitChars sep l).length
  | c :: l, h => by
    unfold splitChars
    split
    · have := List.length_pos_of_ne_nil (splitChars_ne_nil sep l)
      simp only [List.length_cons]
      omega
    · have ih := two_le_length_splitChars ((List.mem_cons.1 h).resolve_left (Ne.symm ‹_›))
      split <;> simp_all

/-- `strings.Contains(s, substr)`. -/
def contains (s substr : String) : Bool := decide (substr.data <:+: s.data)

/-- `strings.HasPrefix(s, p)`. -/
def hasPrefix (s p : String) : Bool := p.data.isPrefixOf s.data

/-- The value `strconv.ParseInt(s, 10, 64)` returns, whose error the code drops: `0` when `s`
is not a sign and decimal digits, the nearest `int64` bound when it is out of range. -/
def parseInt (s : String) : Int :=
  let (neg, digits) : Bool × List Char := match s.data with
    | '-' :: ds => (true, ds)
    | '+' :: ds => (false, ds)
    | ds => (false, ds)
  if digits = [] ∨ digits.all Char.isDigit = false then 0
  else
    let v : Int := if neg then -(decodeDigits digits : Int) else decodeDigits digits
    max (-2 ^ 63) (min (2 ^ 63 - 1) v)

/-- A sign-free list of digits is read as the number it spells, clamped to `int64`. -/
theorem parseInt_digits {l : List Char} (hl : l ≠ []) (hd : ∀ c ∈ l, c.isDigit) :
    parseInt ⟨l⟩ = max (-2 ^ 63) (min (2 ^ 63 - 1) (decodeDigits l : Int)) := by
  obtain ⟨d, ds, rfl⟩ := List.exists_cons_of_ne_nil hl
  have hminus : d ≠ '-' := fun h => by simpa [h] using hd d (List.mem_cons_self _ _)
  have hplus : d ≠ '+' := fun h => by simpa [h] using hd d (List.mem_cons_self _ _)
  unfold parseInt
  split
  next neg digits heq =>
  split at heq
  · simp_all
  · simp_all
  · cases heq
    simp [List.all_eq_true.2 hd]

/-- **`strconv.ParseInt` reads back `strconv.FormatInt`** on every `int64`. -/
theorem parseInt_formatInt {i : Int} (h₁ : -2 ^ 63 ≤ i) (h₂ : i < 2 ^ 63) :
    parseInt (formatInt i) = i := by
  cases i with
  | ofNat n =>
    have := parseInt_digits (formatInt_ne_nil n) fun c hc => isDigit_of_mem_toDigits hc
    rw [formatInt_ofNat_data, decodeDigits_toDigits] at this
    rw [Int.ofNat_eq_coe] at h₁ h₂ ⊢
    rw [show formatInt n = ⟨(formatInt n).data⟩ from rfl, formatInt_ofNat_data, this]
    omega
  | negSucc n =>
    have hne : Nat.toDigits 10 (n + 1) ≠ [] := by simpa using formatInt_ne_nil (n + 1 : Nat)
    unfold parseInt
    rw [formatInt_negSucc_data]
    simp only [hne, false_or, List.all_eq_true.2 fun c hc => isDigit_of_mem_toDigits hc,
      decodeDigits_toDigits]
    simp
    rw [Int.negSucc_eq] at h₁ ⊢
    omega

/-- `strings.Replace(s, "", new, -1)` puts `new` before every character and at the end. -/
example : replaceAll "ab" "" "-" = "-a-b-" := by decide

end Go

end MilvusBackup
