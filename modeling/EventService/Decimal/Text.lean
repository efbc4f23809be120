/-
Decimals as text: what `str` writes for a decimal, and what `Decimal(text)` reads (white space
around it, underscores, digits of any script, exponents and the names of the special values).
Reading what was written gives the same decimal back.
-/
import EventService.Decimal.Basic
import EventService.Text.Unicode
import Mathlib.Tactic.IntervalCases

namespace Decimal

/-! ## Writing -/

def signText (neg : Bool) : PyStr := if neg then ['-'] else []

/-- `E` and a signed exponent. -/
def expText (x : Int) : PyStr :=
  'E' :: (if x < 0 then '-' else '+') :: Nat.toDigits 10 x.natAbs

/-- `str(d)`: plain notation where the exponent is not positive and the leading digit not too far
behind the point, scientific notation otherwise. -/
def str : Decimal → PyStr
  | .finite neg c e =>
    let int := Nat.toDigits 10 c
    let leftdigits : Int := e + int.length
    if e ≤ 0 ∧ -6 < leftdigits then
      if leftdigits ≤ 0 then
        signText neg ++ '0' :: '.' :: (List.replicate (-leftdigits).toNat '0' ++ int)
      else if e = 0 then signText neg ++ int
      else signText neg ++ int.take leftdigits.toNat ++ '.' :: int.drop leftdigits.toNat
    else
      let frac := int.drop 1
      signText neg ++ int.take 1 ++ (if frac = [] then [] else '.' :: frac) ++
        (if leftdigits = 1 then [] else expText (leftdigits - 1))
  | .infinity neg => signText neg ++ "Infinity".toList
  | .nan neg signaling payload =>
    signText neg ++ (if signaling then "sNaN".toList else "NaN".toList) ++
      (if payload = 0 then [] else Nat.toDigits 10 payload)

/-! ## Reading -/

/-- The exponents a decimal may have outside of any context. -/
def representable (c : Nat) (e : Int) : Bool :=
  -1999999999999999997 ≤ e && e + digits c - 1 ≤ 999999999999999999

/-- A digit of any script as the ASCII digit, other characters as they are. -/
def asciiDigit (c : Char) : Char :=
  match PyStr.decimalDigit c with
  | some d => Nat.digitChar d
  | none => c

def plain (s : PyStr) : PyStr := ((PyStr.strip s).filter (· != '_')).map asciiDigit

/-- An optional sign, and the rest. -/
def readSign : PyStr → Bool × PyStr
  | '-' :: s => (true, s)
  | '+' :: s => (false, s)
  | s => (false, s)

def readNat (s : PyStr) : Option Nat :=
  if s ≠ [] ∧ s.all Char.isDigit then some (Nat.ofDigitChars 10 s 0) else none

/-- Nothing, or `e` and a signed number. -/
def readExp : PyStr → Option Int
  | [] => some 0
  | c :: s =>
    if c = 'e' ∨ c = 'E' then
      let (neg, s) := readSign s
      (readNat s).map fun (n : Nat) => if neg then -(n : Int) else (n : Int)
    else none

/-- The digits after a point, if there is one, and the rest. -/
def readFrac : PyStr → PyStr × PyStr
  | '.' :: s => s.span Char.isDigit
  | s => ([], s)

def ofParts (neg : Bool) (c : Nat) (e : Int) : Option Decimal :=
  if representable c e then some (.finite neg c e) else none

def readFinite (neg : Bool) (s : PyStr) : Option Decimal :=
  let (int, s) := s.span Char.isDigit
  let (frac, s) := readFrac s
  if int = [] ∧ frac = [] then none
  else
    match readExp s with
    | none => none
    | some x => ofParts neg (Nat.ofDigitChars 10 (int ++ frac) 0) (x - frac.length)

/-- The digits of a NaN's payload, or nothing. -/
def readPayload (s : PyStr) : Option Nat := if s = [] then some 0 else readNat s

/-- `Decimal(s)`; `none` where it raises `InvalidOperation`. -/
def parse (s : PyStr) : Option Decimal :=
  let (neg, s) := readSign (plain s)
  match s.map Char.toLower with
  | ['i', 'n', 'f'] | ['i', 'n', 'f', 'i', 'n', 'i', 't', 'y'] => some (.infinity neg)
  | 'n' :: 'a' :: 'n' :: payload => (readPayload payload).map (.nan neg false)
  | 's' :: 'n' :: 'a' :: 'n' :: payload => (readPayload payload).map (.nan neg true)
  | _ => readFinite neg s

/-! ## Reading what was written -/

/-- The characters that numbers are written with. -/
def numeral : PyStr := "0123456789.E+-".toList

theorem mem_numeral_of_isDigit {c : Char} (h : c.isDigit = true) : c ∈ numeral := by
  have hc : c = Char.ofNat c.toNat := (Char.ofNat_toNat c).symm
  have h' : 48 ≤ c.toNat ∧ c.toNat ≤ 57 := by
    simp only [Char.isDigit, Bool.and_eq_true, decide_eq_true_eq, ge_iff_le, UInt32.le_iff_toNat_le] at h
    exact h
  generalize c.toNat = n at hc h'
  obtain ⟨h1, h2⟩ := h'
  rw [hc]
  interval_cases n <;> decide

/-- No such character is white space, an underscore, or a digit of another script. -/
theorem numeral_spec {c : Char} (h : c ∈ numeral) :
    PyStr.isSpace c.toNat = false ∧ (c != '_') = true ∧ asciiDigit c = c := by
  have hall : (numeral.all fun c => !PyStr.isSpace c.toNat && c != '_' && asciiDigit c == c) = true := by
    decide +kernel
  have hc := List.all_eq_true.1 hall c h
  simp only [Bool.and_eq_true, Bool.not_eq_true', beq_iff_eq] at hc
  exact ⟨hc.1.1, hc.1.2, hc.2⟩

/-- Reading sees such text as it is. -/
theorem plain_numeral {s : PyStr} (h : ∀ c ∈ s, c ∈ numeral) : plain s = s := by
  unfold plain
  rw [PyStr.strip_eq_self fun c hc => (numeral_spec (h c hc)).1,
    List.filter_eq_self.2 fun c hc => (numeral_spec (h c hc)).2.1]
  calc s.map asciiDigit = s.map id := List.map_congr_left fun c hc => (numeral_spec (h c hc)).2.2
    _ = s := List.map_id s

theorem isDigit_toDigits {n : Nat} {c : Char} (h : c ∈ Nat.toDigits 10 n) : c.isDigit = true :=
  Nat.isDigit_of_mem_toDigits (by decide) (by decide) h

/-- Digits are read up to the first character that is none. -/
theorem span_digits {ds s : PyStr} (hd : ∀ c ∈ ds, c.isDigit = true)
    (hs : ∀ c ∈ s.head?, c.isDigit = false) : (ds ++ s).span Char.isDigit = (ds, s) := by
  rw [List.span_eq_takeWhile_dropWhile, List.takeWhile_append_of_pos hd, List.dropWhile_append_of_pos hd]
  cases s with
  | nil => simp
  | cons c s =>
    have hc : c.isDigit = false := hs c rfl
    simp [hc]

theorem readExp_expText (x : Int) : readExp (expText x) = some x := by
  have hnat : readNat (Nat.toDigits 10 x.natAbs) = some x.natAbs := by
    unfold readNat
    rw [if_pos ⟨Nat.toDigits_ne_nil, List.all_eq_true.2 fun c hc => isDigit_toDigits hc⟩,
      Nat.ofDigitChars_ten_toDigits]
  unfold expText readExp
  simp only [or_true, if_true]
  split
  · simp only [readSign, hnat, Option.map_some, if_true]
    congr 1
    omega
  · simp only [readSign, hnat, Option.map_some]
    congr 1
    simp
    omega

/-! ### The parts of a number -/

theorem mem_numeral_of_signText {neg : Bool} {c : Char} (h : c ∈ signText neg) : c ∈ numeral := by
  cases neg
  · simp [signText] at h
  · rw [signText, if_pos rfl, List.mem_singleton] at h
    subst h
    decide

theorem mem_numeral_of_expText {x : Int} {c : Char} (h : c ∈ expText x) : c ∈ numeral := by
  unfold expText at h
  rcases List.mem_cons.1 h with rfl | h
  · decide
  rcases List.mem_cons.1 h with rfl | h
  · split <;> decide
  · exact mem_numeral_of_isDigit (isDigit_toDigits h)

/-- A digit is no sign. -/
theorem readSign_signText (neg : Bool) {d : Char} (hd : d.isDigit = true) (s : PyStr) :
    readSign (signText neg ++ d :: s) = (neg, d :: s) := by
  cases neg
  · unfold signText readSign
    simp only [Bool.false_eq_true, if_false, List.nil_append]
    split
    · rename_i h
      rw [(List.cons.inj h).1] at hd
      exact absurd hd (by decide)
    · rename_i h
      rw [(List.cons.inj h).1] at hd
      exact absurd hd (by decide)
    · rfl
  · rfl

/-- Where the first character is a digit no special value is meant. -/
theorem parse_eq_readFinite {s t : PyStr} {neg : Bool} {d : Char} (hd : d.isDigit = true)
    (h : readSign (plain s) = (neg, d :: t)) : parse s = readFinite neg (d :: t) := by
  have hlow : (numeral.all fun c => !c.isDigit || c.toLower.isDigit) = true := by decide
  have hdl := List.all_eq_true.1 hlow d (mem_numeral_of_isDigit hd)
  rw [hd, Bool.not_true, Bool.false_or] at hdl
  unfold parse
  rw [h]
  simp only [List.map_cons]
  generalize d.toLower = l at hdl
  split
  · rename_i h; rw [(List.cons.inj h).1] at hdl; exact absurd hdl (by decide)
  · rename_i h; rw [(List.cons.inj h).1] at hdl; exact absurd hdl (by decide)
  · rename_i h; rw [(List.cons.inj h).1] at hdl; exact absurd hdl (by decide)
  · rename_i h; rw [(List.cons.inj h).1] at hdl; exact absurd hdl (by decide)
  · rfl

/-- What follows the whole part: nothing, a fraction after the point, an exponent. -/
structure Tail (tail frac ex : PyStr) (x : Int) : Prop where
  digits : ∀ c ∈ frac, c.isDigit = true
  split : tail = ex ∧ frac = [] ∨ tail = '.' :: (frac ++ ex)
  exponent : ex = [] ∧ x = 0 ∨ ex = expText x

section Tail

variable {tail frac ex : PyStr} {x : Int} (h : Tail tail frac ex x)

include h

theorem Tail.readExp : readExp ex = some x := by
  rcases h.exponent with ⟨rfl, rfl⟩ | rfl
  · rfl
  · exact readExp_expText x

theorem Tail.head_exponent : ∀ c ∈ ex.head?, c = 'E' := by
  rcases h.exponent with ⟨rfl, -⟩ | rfl
  · simp
  · simp [expText]

theorem Tail.exponent_numeral : ∀ c ∈ ex, c ∈ numeral := by
  rcases h.exponent with ⟨rfl, -⟩ | rfl
  · simp
  · exact fun c hc => mem_numeral_of_expText hc

theorem Tail.numeral : ∀ c ∈ tail, c ∈ numeral := by
  rcases h.split with ⟨rfl, -⟩ | rfl
  · exact h.exponent_numeral
  · intro c hc
    rcases List.mem_cons.1 hc with rfl | hc
    · decide
    rcases List.mem_append.1 hc with hc | hc
    · exact mem_numeral_of_isDigit (h.digits c hc)
    · exact h.exponent_numeral c hc

theorem Tail.head : ∀ c ∈ tail.head?, c.isDigit = false := by
  intro c hc
  rcases h.split with ⟨rfl, -⟩ | rfl
  · rw [h.head_exponent c hc]; rfl
  · rw [← Option.some.inj hc]; rfl

theorem Tail.readFrac : readFrac tail = (frac, ex) := by
  rcases h.split with ⟨rfl, rfl⟩ | rfl
  · unfold Decimal.readFrac
    split
    · exact absurd (h.head_exponent '.' rfl) (by decide)
    · rfl
  · exact span_digits h.digits fun c hc => by rw [h.head_exponent c hc]; rfl

end Tail

/-- A fraction and no exponent. -/
theorem tail_fraction {frac : PyStr} (h : ∀ c ∈ frac, c.isDigit = true) : Tail ('.' :: frac) frac [] 0 where
  digits := h
  split := Or.inr (by rw [List.append_nil])
  exponent := Or.inl ⟨rfl, rfl⟩

theorem tail_nil : Tail [] [] [] 0 where
  digits := by simp
  split := Or.inl ⟨rfl, rfl⟩
  exponent := Or.inl ⟨rfl, rfl⟩

/-- A number written as sign, whole part, fraction and exponent is read part by part. -/
theorem parse_parts (neg : Bool) {int tail frac ex : PyStr} {x : Int}
    (hint : ∀ c ∈ int, c.isDigit = true) (hne : int ≠ []) (h : Tail tail frac ex x) :
    parse (signText neg ++ int ++ tail) =
      ofParts neg (Nat.ofDigitChars 10 (int ++ frac) 0) (x - frac.length) := by
  have hplain : plain (signText neg ++ int ++ tail) = signText neg ++ int ++ tail := by
    refine plain_numeral fun c hc => ?_
    rcases List.mem_append.1 hc with hc | hc
    · rcases List.mem_append.1 hc with hc | hc
      · exact mem_numeral_of_signText hc
      · exact mem_numeral_of_isDigit (hint c hc)
    · exact h.numeral c hc
  obtain ⟨d, int', rfl⟩ := List.exists_cons_of_ne_nil hne
  have hd := hint d (List.mem_cons_self ..)
  have hsign : readSign (plain (signText neg ++ (d :: int') ++ tail)) = (neg, d :: (int' ++ tail)) := by
    rw [hplain, List.append_assoc]
    exact readSign_signText neg hd (int' ++ tail)
  have hspan : (d :: (int' ++ tail)).span Char.isDigit = (d :: int', tail) := span_digits hint h.head
  rw [parse_eq_readFinite hd hsign]
  unfold readFinite
  rw [hspan]
  simp only [h.readFrac, h.readExp]
  rw [if_neg (by simp)]

/-- `Decimal(str(d))` is `d` again. -/
theorem parse_str {neg : Bool} {c : Nat} {e : Int} (h : representable c e = true) :
    parse (str (.finite neg c e)) = some (.finite neg c e) := by
  have hok : ofParts neg c e = some (.finite neg c e) := if_pos h
  have hdig : ∀ ch ∈ Nat.toDigits 10 c, ch.isDigit = true := fun ch hch => isDigit_toDigits hch
  have hval : Nat.ofDigitChars 10 (Nat.toDigits 10 c) 0 = c := Nat.ofDigitChars_ten_toDigits
  have hpos : 0 < (Nat.toDigits 10 c).length := Nat.length_toDigits_pos
  unfold str
  simp only
  generalize Nat.toDigits 10 c = int at hdig hval hpos
  have hne : int ≠ [] := List.ne_nil_of_length_pos hpos
  split
  · rename_i hplain
    split
    · -- zeros between the point and the first digit
      rename_i hleft
      have hfrac : ∀ ch ∈ List.replicate (-(e + int.length)).toNat '0' ++ int, ch.isDigit = true := by
        intro ch hch
        rcases List.mem_append.1 hch with hch | hch
        · rw [List.eq_of_mem_replicate hch]; rfl
        · exact hdig ch hch
      have := @parse_parts neg ['0'] _ _ _ _ (by simp [Char.isDigit]) (by simp) (tail_fraction hfrac)
      rw [List.append_assoc] at this
      refine this.trans ?_
      rw [Nat.ofDigitChars_append, Nat.ofDigitChars_append, Nat.ofDigitChars_replicate_zero]
      have h0 : Nat.ofDigitChars 10 ['0'] 0 = 0 := by decide
      rw [h0, Nat.mul_zero, hval, List.length_append, List.length_replicate, ← hok]
      congr 1
      omega
    · rename_i hleft
      split
      · rename_i he
        have := parse_parts neg hdig hne tail_nil
        rw [List.append_nil] at this
        refine this.trans ?_
        rw [List.append_nil, hval, ← hok]
        congr 1
        simp [he]
      · rename_i he
        have htake : int.take (e + int.length).toNat ++ int.drop (e + int.length).toNat = int :=
          List.take_append_drop ..
        have hfrac := tail_fraction fun ch hch =>
          hdig ch (List.mem_of_mem_drop (i := (e + int.length).toNat) hch)
        refine (parse_parts neg (fun ch hch => hdig ch (List.mem_of_mem_take hch)) ?_ hfrac).trans ?_
        · apply List.ne_nil_of_length_pos
          rw [List.length_take]
          omega
        · rw [htake, hval, List.length_drop, ← hok]
          congr 1
          omega
  · rename_i hsci
    have htake : int.take 1 ++ int.drop 1 = int := List.take_append_drop ..
    have hlen : (int.drop 1).length = int.length - 1 := List.length_drop
    have htail : Tail ((if int.drop 1 = [] then [] else '.' :: int.drop 1) ++
        (if e + int.length = 1 then [] else expText (e + int.length - 1))) (int.drop 1)
        (if e + int.length = 1 then [] else expText (e + int.length - 1))
        (if e + int.length = 1 then 0 else e + int.length - 1) := by
      constructor
      · exact fun ch hch => hdig ch (List.mem_of_mem_drop hch)
      · split
        · rename_i hnil
          exact Or.inl ⟨List.nil_append _, hnil⟩
        · exact Or.inr rfl
      · split
        · exact Or.inl ⟨rfl, rfl⟩
        · exact Or.inr rfl
    rw [List.append_assoc]
    refine (parse_parts neg (fun ch hch => hdig ch (List.mem_of_mem_take hch)) ?_ htail).trans ?_
    · apply List.ne_nil_of_length_pos
      rw [List.length_take]
      omega
    · rw [htake, hval, hlen, ← hok]
      congr 1
      split <;> omega

end Decimal
