import Mathlib.Data.List.TakeWhile

/-!
# Filter expressions as text

A packet filter is handed to the capture library as text, and a program
that wants a stricter filter appends to that text. What the longer text
means is decided by the library's grammar. This file has the part of the
grammar such a program relies on, over an arbitrary packet type:

- `Str`, `cStr`, `digits`: C++ strings as lists of characters, what
  `c_str()` shows of them, and decimal numerals;
- `FilterLang`: the documented laws of the filter language - `and` and
  `or` take an expression on the left and a single term on the right
  (equal precedence, left associative), `not` negates a term, an
  expression never starts with a connective, the empty text is accepted
  and matches everything;
- `FilterLang.ofPrims`: the language over any table of primitives, by a
  word splitter and a left-to-right parser. It shows that the laws can be
  met together, and it runs.
-/

namespace NetSystem

/-! ## Strings -/

/-- A C++ `std::string`: any characters, NUL included. -/
abbrev Str := List Char

/-- What a C function sees of a string: everything before the first NUL. -/
def cStr (s : Str) : Str := s.takeWhile (· ≠ '\x00')

theorem cStr_eq_self {s : Str} (h : '\x00' ∉ s) : cStr s = s := by
  rw [cStr, List.takeWhile_eq_self_iff]
  intro c hc
  simpa using fun heq : c = '\x00' => h (heq ▸ hc)

theorem nul_notMem_cStr (s : Str) : '\x00' ∉ cStr s := fun h =>
  absurd (List.mem_takeWhile_imp h) (by decide)

/-- A text without NUL in front is seen in full. -/
theorem cStr_append {s : Str} (h : '\x00' ∉ s) (t : Str) : cStr (s ++ t) = s ++ cStr t := by
  have hs := cStr_eq_self h
  rw [cStr] at hs
  rw [cStr, List.takeWhile_append, hs, if_pos rfl]
  rfl

/-- `std::to_string` of a natural number. -/
def digits (n : Nat) : Str := Nat.toDigits 10 n

theorem digits_injective : Function.Injective digits := by
  intro m n h
  have hm : Nat.ofDigitChars 10 (digits m) 0 = m := Nat.ofDigitChars_ten_toDigits
  have hn : Nat.ofDigitChars 10 (digits n) 0 = n := Nat.ofDigitChars_ten_toDigits
  rw [← hm, h, hn]

theorem isDigit_of_mem_digits {n : Nat} {c : Char} (h : c ∈ digits n) :
    c.isDigit = true :=
  Nat.isDigit_of_mem_toDigits (by decide) (by decide) h

theorem digits_ne_nil (n : Nat) : digits n ≠ [] := Nat.toDigits_ne_nil

theorem nul_notMem_digits (n : Nat) : '\x00' ∉ digits n := fun h =>
  absurd (isDigit_of_mem_digits h) (by decide)

/-- Two texts cut at a separator that stands in neither first part. -/
theorem append_sep_inj {c : Char} : ∀ {a b x y : Str}, c ∉ a → c ∉ b →
    a ++ c :: x = b ++ c :: y → a = b ∧ x = y
  | [], [], x, y, _, _, h => ⟨rfl, (List.cons.inj h).2⟩
  | [], d :: b, x, y, _, hb, h => by
      rw [List.nil_append, List.cons_append, List.cons.injEq] at h
      exact absurd (by simp [h.1]) hb
  | d :: a, [], x, y, ha, _, h => by
      rw [List.nil_append, List.cons_append, List.cons.injEq] at h
      exact absurd (by simp [h.1]) ha
  | d :: a, e :: b, x, y, ha, hb, h => by
      rw [List.cons_append, List.cons_append, List.cons.injEq] at h
      obtain ⟨rfl, h⟩ := h
      rw [List.mem_cons, not_or] at ha hb
      obtain ⟨rfl, rfl⟩ := append_sep_inj ha.2 hb.2 h
      exact ⟨rfl, rfl⟩

/-! ## Words -/

/-- The characters the scanner skips between tokens. -/
def isBlank (c : Char) : Bool := c == ' ' || c == '\t' || c == '\n' || c == '\r'

/-- Nothing but blanks. -/
def Blank (s : Str) : Prop := ∀ c ∈ s, isBlank c = true

instance (s : Str) : Decidable (Blank s) :=
  decidable_of_iff (s.all isBlank = true) List.all_eq_true

/-- Put a character in front of the first word of a list of pieces. -/
def consChar (c : Char) : List Str → List Str
  | [] => [[c]]
  | w :: ws => (c :: w) :: ws

/-- The text cut at every blank; adjacent blanks leave empty pieces. -/
def pieces : Str → List Str
  | [] => [[]]
  | c :: s => if isBlank c then [] :: pieces s else consChar c (pieces s)

/-- The words of a text. -/
def words (s : Str) : List Str := (pieces s).filter (· ≠ [])

theorem pieces_ne_nil : ∀ s : Str, pieces s ≠ []
  | [] => by simp [pieces]
  | c :: s => by
      rw [pieces]
      split
      · simp
      · cases hp : pieces s with
        | nil => exact absurd hp (pieces_ne_nil s)
        | cons w ws => simp [consChar]

theorem consChar_append {c : Char} {ps qs : List Str} (h : ps ≠ []) :
    consChar c (ps ++ qs) = consChar c ps ++ qs := by
  cases ps with
  | nil => exact absurd rfl h
  | cons w ws => rfl

theorem pieces_append_blank {b : Char} (hb : isBlank b = true) (t : Str) :
    ∀ s : Str, pieces (s ++ b :: t) = pieces s ++ pieces t
  | [] => by simp [pieces, hb]
  | c :: s => by
      rw [List.cons_append, pieces, pieces, pieces_append_blank hb t s]
      split
      · rfl
      · exact consChar_append (pieces_ne_nil s)

/-- A blank ends a word, whatever stands before it. -/
theorem words_append_blank {b : Char} (hb : isBlank b = true) (s t : Str) :
    words (s ++ b :: t) = words s ++ words t := by
  rw [words, pieces_append_blank hb, List.filter_append]
  rfl

theorem pieces_of_noBlank : ∀ {s : Str}, (∀ c ∈ s, isBlank c = false) →
    pieces s = [s]
  | [], _ => rfl
  | c :: s, h => by
      have hc : isBlank c = false := h c (List.mem_cons_self ..)
      rw [pieces, hc, pieces_of_noBlank fun x hx => h x (List.mem_cons_of_mem _ hx)]
      rfl

theorem eq_of_pieces : ∀ {s w : Str}, pieces s = [w] → s = w
  | [], w, h => (List.cons.inj h).1
  | c :: s, w, h => by
      rw [pieces] at h
      split at h
      · exact absurd (List.cons.inj h).2 (pieces_ne_nil s)
      · cases hp : pieces s with
        | nil => exact absurd hp (pieces_ne_nil s)
        | cons v vs =>
            rw [hp, consChar, List.cons.injEq] at h
            obtain ⟨rfl, rfl⟩ := h
            rw [eq_of_pieces hp]

theorem words_of_noBlank {s : Str} (hne : s ≠ [])
    (h : ∀ c ∈ s, isBlank c = false) : words s = [s] := by
  rw [words, pieces_of_noBlank h]
  simp [hne]

theorem words_eq_nil_iff : ∀ {s : Str}, words s = [] ↔ Blank s
  | [] => by simp [words, pieces, Blank]
  | c :: s => by
      have ih := words_eq_nil_iff (s := s)
      rw [words] at ih ⊢
      rw [pieces]
      by_cases hc : isBlank c = true
      · rw [if_pos hc]
        simp only [List.filter_cons, ne_eq, not_true_eq_false, decide_false,
          Bool.false_eq_true, if_false]
        rw [ih]
        simp [Blank, hc]
      · rw [if_neg hc]
        cases hp : pieces s with
        | nil => exact absurd hp (pieces_ne_nil s)
        | cons w ws => simp [consChar, Blank, hc]

theorem isBlank_eq_false_of_isDigit {c : Char} (h : c.isDigit = true) : isBlank c = false := by
  by_contra hb
  simp only [isBlank, Bool.not_eq_false, Bool.or_eq_true, beq_iff_eq] at hb
  rcases hb with ((rfl | rfl) | rfl) | rfl <;> exact absurd h (by decide)

theorem words_digits (n : Nat) : words (digits n) = [digits n] :=
  words_of_noBlank (digits_ne_nil n) fun _ hc =>
    isBlank_eq_false_of_isDigit (isDigit_of_mem_digits hc)

/-! ## The language -/

/-- The laws of the filter language a program relies on when it extends a
filter by appending to its text. `Expr e f` reads "`e` is an expression of
the grammar, and it accepts exactly the packets `f` does". -/
structure FilterLang (π : Type*) where
  Expr : Str → (π → Bool) → Prop
  Term : Str → (π → Bool) → Prop
  /-- What the primitive `port n` tests. -/
  port : Nat → π → Bool
  /-- `pcap_compile`. -/
  compile : Str → Option (π → Bool)
  /-- A text compiles iff it is empty or an expression of the grammar. -/
  compile_iff : ∀ {s f},
    compile s = some f ↔ (Blank s ∧ f = fun _ => true) ∨ Expr s f
  expr_term : ∀ {t g}, Term t g → Expr t g
  /-- The left operand of the last `and` is everything before it. -/
  expr_and : ∀ {e f t g}, Expr e f → Term t g →
    Expr (e ++ " and ".toList ++ t) fun p => f p && g p
  /-- The left operand of the last `or` is everything before it. -/
  expr_or : ∀ {e f t g}, Expr e f → Term t g →
    Expr (e ++ " or ".toList ++ t) fun p => f p || g p
  term_not : ∀ {t g}, Term t g → Term ("not ".toList ++ t) fun p => !g p
  term_port : ∀ {n}, n < 65536 → Term ("port ".toList ++ digits n) (port n)
  /-- An expression does not start with a connective. -/
  expr_head : ∀ {b t f}, Blank b → ¬ Expr (b ++ " and ".toList ++ t) f

namespace FilterLang

variable {π : Type*} (L : FilterLang π)

/-- A text that compiles and is not blank is an expression. -/
theorem expr_of_compile {e : Str} {f : π → Bool} (he : L.compile e = some f)
    (hne : ¬ Blank e) : L.Expr e f := by
  rcases L.compile_iff.mp he with ⟨hb, -⟩ | h
  · exact absurd hb hne
  · exact h

theorem compile_of_expr {e : Str} {f : π → Bool} (he : L.Expr e f) :
    L.compile e = some f :=
  L.compile_iff.mpr (Or.inr he)

/-- Appending ` and not t` to an expression conjoins the negation of that
term, whatever the expression. -/
theorem expr_and_not {e t : Str} {f g : π → Bool} (he : L.Expr e f) (ht : L.Term t g) :
    L.Expr (e ++ " and not ".toList ++ t) fun p => f p && !g p := by
  have htext : e ++ " and not ".toList ++ t = e ++ " and ".toList ++ ("not ".toList ++ t) := by
    simp [List.append_assoc]
  rw [htext]
  exact L.expr_and he (L.term_not ht)

theorem compile_and_not_port {e : Str} {f : π → Bool} {n : Nat}
    (he : L.compile e = some f) (hne : ¬ Blank e) (hn : n < 65536) :
    L.compile (e ++ " and not port ".toList ++ digits n) =
      some fun p => f p && !L.port n p := by
  have htext : e ++ " and not port ".toList ++ digits n =
      e ++ " and not ".toList ++ ("port ".toList ++ digits n) := by
    simp [List.append_assoc]
  rw [htext]
  exact L.compile_of_expr (L.expr_and_not (L.expr_of_compile he hne) (L.term_port hn))

/-- Appended to a blank text the same clause is a syntax error. -/
theorem compile_blank_and {b t : Str} (hb : Blank b) :
    L.compile (b ++ " and ".toList ++ t) = none := by
  rw [Option.eq_none_iff_forall_ne_some]
  intro f hf
  rcases L.compile_iff.mp hf with ⟨hbl, -⟩ | h
  · have ha := hbl 'a' (by simp)
    exact absurd ha (by decide)
  · exact L.expr_head hb h

end FilterLang

/-! ## The language over a table of primitives -/

section OfPrims

variable {π : Type*} (prim : List Str → Option (π → Bool))

/-- `none` for a word that is part of a primitive, else the connective. -/
def connective? (w : Str) : Option Bool :=
  if w = "and".toList then some true
  else if w = "or".toList then some false
  else none

/-- Cut a list of words at its connectives: the first clause, then each
connective (`true` for `and`) with the clause after it. -/
def clauses : List Str → List Str × List (Bool × List Str)
  | [] => ([], [])
  | w :: ws =>
      match connective? w with
      | some b => ([], (b, (clauses ws).1) :: (clauses ws).2)
      | none => (w :: (clauses ws).1, (clauses ws).2)

/-- A clause: a primitive under any number of `not`s. -/
def termOf : List Str → Option (π → Bool)
  | [] => prim []
  | w :: ws =>
      if w = "not".toList then (termOf ws).map fun g p => !g p
      else prim (w :: ws)

/-- One more clause on the right of what has been read. -/
def joinClause (f : π → Bool) (c : Bool × List Str) : Option (π → Bool) :=
  (termOf prim c.2).map fun g p => if c.1 then f p && g p else f p || g p

/-- Left to right, `and` and `or` alike. -/
def exprOf (ws : List Str) : Option (π → Bool) :=
  (termOf prim (clauses ws).1).bind fun f =>
    (clauses ws).2.foldlM (joinClause prim) f

theorem clauses_of_noConnective : ∀ {ws : List Str},
    (∀ w ∈ ws, connective? w = none) → clauses ws = (ws, [])
  | [], _ => rfl
  | w :: ws, h => by
      have hw := h w (List.mem_cons_self ..)
      have ih := clauses_of_noConnective fun x hx => h x (List.mem_cons_of_mem _ hx)
      rw [clauses, hw]
      simp only [ih]

theorem clauses_append {c : Str} {b : Bool} (hc : connective? c = some b)
    {ts : List Str} (hts : ∀ w ∈ ts, connective? w = none) :
    ∀ ws : List Str, clauses (ws ++ c :: ts) =
      ((clauses ws).1, (clauses ws).2 ++ [(b, ts)])
  | [] => by
      simp [clauses, hc, clauses_of_noConnective hts]
  | w :: ws => by
      have ih := clauses_append hc hts ws
      rw [List.cons_append, clauses, clauses]
      cases connective? w with
      | none => simp only [ih]
      | some b' => simp only [ih, List.cons_append]

theorem exprOf_append {c : Str} {b : Bool} (hc : connective? c = some b)
    {ws ts : List Str} {f g : π → Bool}
    (hts : ∀ w ∈ ts, connective? w = none)
    (hf : exprOf prim ws = some f) (hg : termOf prim ts = some g) :
    exprOf prim (ws ++ c :: ts) =
      some fun p => if b then f p && g p else f p || g p := by
  rw [exprOf, clauses_append hc hts]
  rw [exprOf, Option.bind_eq_some_iff] at hf
  obtain ⟨f₀, hf₀, hf⟩ := hf
  simp only [hf₀, Option.bind_some, List.foldlM_append, hf]
  simp [joinClause, hg]

/-! The words of the four texts the laws build. -/

theorem words_and (e t : Str) :
    words (e ++ " and ".toList ++ t) = words e ++ "and".toList :: words t := by
  rw [show e ++ " and ".toList ++ t = e ++ ' ' :: ("and".toList ++ ' ' :: t) by simp,
    words_append_blank rfl, words_append_blank rfl]
  rfl

theorem words_or (e t : Str) :
    words (e ++ " or ".toList ++ t) = words e ++ "or".toList :: words t := by
  rw [show e ++ " or ".toList ++ t = e ++ ' ' :: ("or".toList ++ ' ' :: t) by simp,
    words_append_blank rfl, words_append_blank rfl]
  rfl

theorem words_not (t : Str) :
    words ("not ".toList ++ t) = "not".toList :: words t := by
  rw [show "not ".toList ++ t = "not".toList ++ ' ' :: t by simp,
    words_append_blank rfl]
  rfl

theorem words_port (n : Nat) :
    words ("port ".toList ++ digits n) = ["port".toList, digits n] := by
  rw [show "port ".toList ++ digits n = "port".toList ++ ' ' :: digits n by simp,
    words_append_blank rfl, words_digits]
  rfl

theorem connective?_eq_none {w : Str} (ha : 'a' ∉ w) (ho : 'o' ∉ w) : connective? w = none := by
  rw [connective?, if_neg, if_neg]
  · rintro rfl
    exact ho (by decide)
  · rintro rfl
    exact ha (by decide)

theorem connective?_digits (n : Nat) : connective? (digits n) = none :=
  connective?_eq_none (fun h => absurd (isDigit_of_mem_digits h) (by decide))
    fun h => absurd (isDigit_of_mem_digits h) (by decide)

/-- The language of a table of primitives. The table must know `port n`
and must not accept the empty clause. -/
def FilterLang.ofPrims (port : Nat → π → Bool)
    (hport : ∀ n < 65536, prim ["port".toList, digits n] = some (port n))
    (hnil : prim [] = none) : FilterLang π where
  Expr s f := exprOf prim (words s) = some f
  Term t g := termOf prim (words t) = some g ∧ ∀ w ∈ words t, connective? w = none
  port := port
  compile s := if Blank s then some fun _ => true else exprOf prim (words s)
  compile_iff := by
    intro s f
    by_cases hb : Blank s
    · have hno : exprOf prim (words s) = none := by
        rw [words_eq_nil_iff.mpr hb]
        simp [exprOf, clauses, termOf, hnil]
      simp [hb, hno, eq_comm]
    · simp [hb]
  expr_term := by
    rintro t g ⟨hg, hts⟩
    simp [exprOf, clauses_of_noConnective hts, hg]
  expr_and := by
    rintro e f t g he ⟨hg, hts⟩
    rw [words_and]
    simpa using exprOf_append prim (b := true) rfl hts he hg
  expr_or := by
    rintro e f t g he ⟨hg, hts⟩
    rw [words_or]
    simpa using exprOf_append prim (b := false) rfl hts he hg
  term_not := by
    rintro t g ⟨hg, hts⟩
    rw [words_not]
    refine ⟨by simp [termOf, hg], List.forall_mem_cons.mpr ⟨by decide, hts⟩⟩
  term_port := by
    intro n hn
    rw [words_port]
    refine ⟨?_, List.forall_mem_cons.mpr ⟨by decide, by simp [connective?_digits]⟩⟩
    rw [termOf, if_neg (by decide)]
    exact hport n hn
  expr_head := by
    intro b t f hb h
    rw [words_and, words_eq_nil_iff.mpr hb, List.nil_append] at h
    have hc : (clauses ("and".toList :: words t)).1 = [] := rfl
    rw [exprOf, hc] at h
    simp [termOf, hnil] at h

theorem FilterLang.ofPrims_term {prim : List Str → Option (π → Bool)} {port : Nat → π → Bool}
    {hport : ∀ n < 65536, prim ["port".toList, digits n] = some (port n)}
    {hnil : prim [] = none} {t : Str} {g : π → Bool} {ws : List Str} (hw : words t = ws)
    (hg : termOf prim ws = some g) (hts : ∀ w ∈ ws, connective? w = none) :
    (FilterLang.ofPrims prim port hport hnil).Term t g := by
  subst hw
  exact ⟨hg, hts⟩

end OfPrims

end NetSystem
