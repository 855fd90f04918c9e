import Mathlib.Algebra.Group.Nat.Defs
import Mathlib.Data.List.TakeWhile
import Mathlib.Tactic.Common

/-!
# The expression language of the protocol configuration

What an expression of a `.cfg` file is, apart from the code that reads it: the
characters are cut into tokens by maximal munch, the tokens are derived from
the grammar in the header of `EvalEngine`, and the derived tree has a value.

`mod` is not a token of its own. It is read as an identifier, and the grammar
decides by the position whether the word is an operator.
-/

namespace ProtoBridge.Config

/-! ## Characters -/

/-- `std::isspace` in the C locale. -/
def isspace (c : Char) : Bool :=
  c == ' ' || (9 ≤ c.toNat && c.toNat ≤ 13)

/-- What may begin an identifier. -/
def isHead (c : Char) : Bool :=
  c.isAlpha || c == '_'

/-- What may continue an identifier. -/
def isWord (c : Char) : Bool :=
  c.isAlphanum || c == '_'

/-- The value of a run of decimal digits. -/
def decimal (digits : List Char) : Nat :=
  digits.foldl (fun n c => 10 * n + (c.toNat - '0'.toNat)) 0

/-! ## Tokens -/

inductive Op where
  | add
  | sub
  | mul
  | div
  | mod
  deriving DecidableEq

inductive Token where
  | num (value : Nat)
  | ident (name : String)
  | lparen
  | rparen
  | plus
  | minus
  | times
  | slash
  deriving DecidableEq

/-- The token that stands for an operator. -/
def Op.token : Op → Token
  | .add => .plus
  | .sub => .minus
  | .mul => .times
  | .div => .slash
  | .mod => .ident "mod"

/-- `+` and `-` bind less tightly than the rest. -/
def Op.additive : Op → Bool
  | .add | .sub => true
  | .mul | .div | .mod => false

/-- The tokens of one character. -/
def symbol : Char → Option Token
  | '(' => some .lparen
  | ')' => some .rparen
  | '+' => some .plus
  | '-' => some .minus
  | '*' => some .times
  | '/' => some .slash
  | _ => none

/-- `Munch s t q`: the token `t` stands at the front of `s`, and `q` is what
follows it. A number or an identifier is read as far as it goes: the character
after it could not have continued it. -/
inductive Munch : List Char → Token → List Char → Prop
  | symbol {c : Char} {t : Token} {q : List Char} :
      symbol c = some t → Munch (c :: q) t q
  | num {digits q : List Char} :
      digits ≠ [] → (∀ c ∈ digits, c.isDigit) → (∀ c ∈ q.head?, ¬ c.isDigit) →
      Munch (digits ++ q) (.num (decimal digits)) q
  | ident {c : Char} {word q : List Char} :
      isHead c → (∀ d ∈ word, isWord d) → (∀ d ∈ q.head?, ¬ isWord d) →
      Munch (c :: (word ++ q)) (.ident (String.ofList (c :: word))) q

/-- `Reads s ts r`: cutting tokens off the front of `s` gives `ts` and leaves
`r`. There may be blanks before each token and after the last. -/
inductive Reads : List Char → List Token → List Char → Prop
  | done (s : List Char) : Reads s [] s
  | space {c : Char} {s r : List Char} {ts : List Token} :
      isspace c → Reads s ts r → Reads (c :: s) ts r
  | token {t : Token} {s q r : List Char} {ts : List Token} :
      Munch s t q → Reads q ts r → Reads s (t :: ts) r

/-- The whole of `s` is cut into the tokens `ts`. -/
def Lexes (s : List Char) (ts : List Token) : Prop :=
  Reads s ts []

/-! ## Trees -/

inductive Ast where
  | num (value : Nat)
  | var (name : String)
  | binary (op : Op) (left right : Ast)
  deriving DecidableEq

inductive Category where
  | expr
  | term
  | factor
  deriving DecidableEq

/-- The grammar

```
expr   = term (('+' | '-') term)*
term   = factor (('*' | '/' | 'mod') factor)*
factor = number | ident | '(' expr ')'
```

with the trees its sentences stand for. Both loops associate to the left. -/
inductive Derives : Category → List Token → Ast → Prop
  | number {n : Nat} : n < 2 ^ 64 → Derives .factor [.num n] (.num n)
  | ident (name : String) : Derives .factor [.ident name] (.var name)
  | paren {ts : List Token} {e : Ast} :
      Derives .expr ts e → Derives .factor (.lparen :: (ts ++ [.rparen])) e
  | factor {ts : List Token} {e : Ast} :
      Derives .factor ts e → Derives .term ts e
  | scale {ts us : List Token} {e f : Ast} (op : Op) : op.additive = false →
      Derives .term ts e → Derives .factor us f →
      Derives .term (ts ++ op.token :: us) (.binary op e f)
  | term {ts : List Token} {e : Ast} :
      Derives .term ts e → Derives .expr ts e
  | sum {ts us : List Token} {e f : Ast} (op : Op) : op.additive = true →
      Derives .expr ts e → Derives .term us f →
      Derives .expr (ts ++ op.token :: us) (.binary op e f)

/-! ## Values -/

/-- The value of an operator on two 64-bit values: `+` and `*` wrap, `-`
saturates, and there is no division by zero. -/
def Op.value : Op → Nat → Nat → Option Nat
  | .add, a, b => some ((a + b) % 2 ^ 64)
  | .sub, a, b => some (a - b)
  | .mul, a, b => some (a * b % 2 ^ 64)
  | .div, a, b => if b = 0 then none else some (a / b)
  | .mod, a, b => if b = 0 then none else some (a % b)

/-- The value of a tree. There is none when a name is unbound or a divisor is
zero. -/
def Ast.value (vars : String → Option Nat) : Ast → Option Nat
  | .num n => some n
  | .var name => vars name
  | .binary op e f => do op.value (← e.value vars) (← f.value vars)

/-! ## Reading tokens -/

namespace Reads

theorem trans {s q r : List Char} {ts us : List Token}
    (first : Reads s ts q) (second : Reads q us r) : Reads s (ts ++ us) r := by
  induction first with
  | done s => exact second
  | space blank _ ih => exact .space blank (ih second)
  | token munch _ ih => exact .token munch (ih second)

theorem split {s r : List Char} {ts us : List Token} (reads : Reads s (ts ++ us) r) :
    ∃ q, Reads s ts q ∧ Reads q us r := by
  induction ts generalizing s r with
  | nil => exact ⟨s, .done s, reads⟩
  | cons t ts ih =>
      -- Blanks come before the token, so the induction is on the reading.
      generalize same : t :: ts ++ us = all at reads
      induction reads with
      | done s => simp at same
      | space blank _ again =>
          obtain ⟨q, before, after⟩ := again same
          exact ⟨q, .space blank before, after⟩
      | token munch rest _ =>
          obtain ⟨rfl, rfl⟩ := List.cons.inj same
          obtain ⟨q, before, after⟩ := ih rest
          exact ⟨q, .token munch before, after⟩

end Reads

variable {q s : List Char} {t : Token} {c : Char}

theorem Munch.length_lt (munch : Munch s t q) : q.length < s.length := by
  cases munch with
  | symbol _ => simp
  | num some _ _ =>
      have nonempty := List.length_pos_iff.2 some
      simp only [List.length_append]
      omega
  | ident _ _ _ =>
      simp only [List.length_cons, List.length_append]
      omega

namespace Reads

theorem length_le {s r : List Char} {ts : List Token} (reads : Reads s ts r) :
    r.length ≤ s.length := by
  induction reads with
  | done s => exact Nat.le_refl _
  | space _ _ ih => simp only [List.length_cons]; omega
  | token munch _ ih => have shorter := munch.length_lt; omega

theorem length_lt {s r : List Char} {ts : List Token} (reads : Reads s ts r)
    (some : ts ≠ []) : r.length < s.length := by
  induction reads with
  | done s => exact absurd rfl some
  | space _ _ ih =>
      have shorter := ih some
      simp only [List.length_cons]
      omega
  | token munch rest _ =>
      have shorter := munch.length_lt
      have rest_le := rest.length_le
      omega

end Reads

/-! ## One token at a time -/

theorem takeWhile_run {p : Char → Bool} {run : List Char} (all : ∀ c ∈ run, p c)
    (ends : ∀ c ∈ q.head?, ¬ p c) : (run ++ q).takeWhile p = run ∧ (run ++ q).dropWhile p = q := by
  induction run with
  | nil =>
      cases q with
      | nil => simp
      | cons c q => simp [ends c rfl]
  | cons c run ih =>
      obtain ⟨take, drop⟩ := ih fun d h => all d (List.mem_cons_of_mem _ h)
      simp [all c List.mem_cons_self, take, drop]

theorem head?_dropWhile (p : Char → Bool) (s : List Char) :
    ∀ c ∈ (s.dropWhile p).head?, ¬ p c := by
  intro c h
  have stops := List.head?_dropWhile_not p s
  simp only [Option.mem_def] at h
  rw [h] at stops
  simpa using stops

/-- The token at the front of the text, and the text after it. -/
def munch? : List Char → Option (Token × List Char)
  | [] => none
  | c :: s =>
      match symbol c with
      | some t => some (t, s)
      | none =>
          if c.isDigit then
            some (.num (decimal (c :: s.takeWhile Char.isDigit)), s.dropWhile Char.isDigit)
          else if isHead c then
            some (.ident (String.ofList (c :: s.takeWhile isWord)), s.dropWhile isWord)
          else
            none

theorem symbol_alone (is : symbol c = some t) :
    c.isDigit = false ∧ isHead c = false ∧ isspace c = false := by
  unfold symbol at is
  split at is
  all_goals first | decide | cases is

theorem symbol_ne (is : symbol c = some t) : (∀ n, t ≠ .num n) ∧ ∀ name, t ≠ .ident name := by
  unfold symbol at is
  split at is
  all_goals cases is
  all_goals exact ⟨by rintro n ⟨⟩, by rintro name ⟨⟩⟩

theorem isHead_of_lt (below : c.toNat < 65) : isHead c = false := by
  have low : ¬ c = '_' := by
    rintro rfl
    exact absurd below (by decide)
  have upper : ¬ 65 ≤ c.val.toNat := Nat.not_le.mpr below
  have lower : ¬ 97 ≤ c.val.toNat := fun le => upper (Nat.le_trans (by decide) le)
  have letter : c.isAlpha = false := by
    delta Char.isAlpha Char.isUpper Char.isLower
    simp only [UInt32.le_iff_toNat_le, ge_iff_le, Bool.or_eq_false_iff, Bool.and_eq_false_iff,
      decide_eq_false_iff_not]
    exact ⟨fun range => upper range.1, .inl lower⟩
  rw [isHead, letter, Bool.false_or, beq_eq_false_iff_ne]
  exact low

theorem isHead_of_isDigit (digit : c.isDigit = true) : isHead c = false := by
  have range := Char.isDigit_iff_toNat.1 digit
  have nine : '9'.toNat = 57 := rfl
  exact isHead_of_lt (by omega)

theorem isspace_alone (blank : isspace c = true) : c.isDigit = false ∧ isHead c = false := by
  have space : c.toNat ≤ 32 := by
    simp only [isspace, Bool.or_eq_true, beq_iff_eq, Bool.and_eq_true, decide_eq_true_eq] at blank
    rcases blank with rfl | range
    · decide
    · omega
  constructor
  · cases digit : c.isDigit with
    | false => rfl
    | true =>
        have range := Char.isDigit_iff_toNat.1 digit
        have zero : '0'.toNat = 48 := rfl
        omega
  · exact isHead_of_lt (by omega)

theorem Munch.starts (munch : Munch s t q) : ∃ c r, s = c :: r ∧ isspace c = false := by
  cases munch with
  | @symbol c t q is => exact ⟨c, q, rfl, (symbol_alone is).2.2⟩
  | @num digits q some all _ =>
      cases digits with
      | nil => exact absurd rfl some
      | cons d digits =>
          refine ⟨d, digits ++ q, rfl, ?_⟩
          have digit : d.isDigit = true := all d List.mem_cons_self
          cases blank : isspace d with
          | false => rfl
          | true => simp [(isspace_alone blank).1] at digit
  | @ident c word q head _ _ =>
      refine ⟨c, word ++ q, rfl, ?_⟩
      cases blank : isspace c with
      | false => rfl
      | true => simp [(isspace_alone blank).2] at head

/-- `munch?` finds the token that stands there. -/
theorem munch?_eq_some : munch? s = some (t, q) ↔ Munch s t q := by
  constructor
  · intro found
    cases s with
    | nil => cases found
    | cons c s =>
        simp only [munch?] at found
        split at found
        case h_1 is => cases found; exact .symbol is
        case h_2 is =>
          split_ifs at found with digit head
          · have munch : Munch (c :: s.takeWhile Char.isDigit ++ s.dropWhile Char.isDigit)
                (.num (decimal (c :: s.takeWhile Char.isDigit))) (s.dropWhile Char.isDigit) :=
              .num (by simp) (by simpa [digit] using fun c h => List.mem_takeWhile_imp h)
                (head?_dropWhile Char.isDigit s)
            rw [List.cons_append, List.takeWhile_append_dropWhile] at munch
            cases found
            exact munch
          · have munch := @Munch.ident _ (s.takeWhile isWord) _ head
              (fun d h => List.mem_takeWhile_imp h) (head?_dropWhile isWord s)
            rw [List.takeWhile_append_dropWhile] at munch
            cases found
            exact munch
  · intro munch
    cases munch with
    | symbol is => simp [munch?, is]
    | num some all ends =>
        rename_i digits
        cases digits with
        | nil => exact absurd rfl some
        | cons d digits =>
            have digit : d.isDigit = true := all d List.mem_cons_self
            have plain : symbol d = none := by
              cases is : symbol d with
              | none => rfl
              | some t => simp [(symbol_alone is).1] at digit
            obtain ⟨take, drop⟩ :=
              takeWhile_run (fun c h => all c (List.mem_cons_of_mem _ h)) ends
            simp [munch?, plain, digit, take, drop]
    | ident head all ends =>
        rename_i c word
        have plain : symbol c = none := by
          cases is : symbol c with
          | none => rfl
          | some t => simp [(symbol_alone is).2.1] at head
        have letter : c.isDigit = false := by
          cases digit : c.isDigit with
          | false => rfl
          | true => simp [isHead_of_isDigit digit] at head
        obtain ⟨take, drop⟩ := takeWhile_run all ends
        simp [munch?, plain, letter, head, take, drop]

theorem Munch.unique {q' : List Char} {t' : Token} (munch : Munch s t q) (munch' : Munch s t' q')
    : t = t' ∧ q = q' := by
  have found := munch?_eq_some.2 munch
  rw [munch?_eq_some.2 munch'] at found
  cases found
  exact ⟨rfl, rfl⟩

theorem Derives.ne_nil {k : Category} {ts : List Token} {e : Ast}
    (derives : Derives k ts e) : ts ≠ [] := by
  induction derives with
  | number | ident | paren | scale | sum => simp
  | factor _ ih => exact ih
  | term _ ih => exact ih

end ProtoBridge.Config
