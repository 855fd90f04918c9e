import ProtoBridge.Lib.Fuel
import ProtoBridge.Lib.Machine
import ProtoBridge.Config.Grammar

/-!
# The expression evaluator

`EvalEngine` of the protocol configuration: a recursive descent over the
characters, with no token list in between. `m_pos` is the text that is left to
read. The descent is bounded by fuel, and `Eval` gives it enough.

`eval_decides` compares it with the grammar.
-/

namespace ProtoBridge.Config

open Lib

/-- `m_vars`. -/
abbrev Vars := String → Option UInt64

/-- A value, and the text after it. -/
abbrev Parsed := Fuelled String (UInt64 × List Char)

/-- `Fail`. -/
def fail {α : Type} (message : String) : Fuelled String α :=
  .error (.failed message)

def skipWs (s : List Char) : List Char :=
  s.dropWhile isspace

/-- Past the end the source looks at a null character. -/
def peekWord (kw s : List Char) : Bool :=
  kw.isPrefixOf s && !isWord ((s.drop kw.length).headD '\x00')

def consumeWord (kw s : List Char) : Option (List Char) :=
  if peekWord kw s then some (s.drop kw.length) else none

/-- The operators `ParseExpr` looks for. -/
def sumOp : List Char → Option (Op × List Char)
  | '+' :: s => some (.add, s)
  | '-' :: s => some (.sub, s)
  | _ => none

/-- The operators `ParseTerm` looks for. -/
def scaleOp (s : List Char) : Option (Op × List Char) :=
  match s with
  | '*' :: s => some (.mul, s)
  | '/' :: s => some (.div, s)
  | s => (consumeWord ['m', 'o', 'd'] s).map fun s => (.mod, s)

/-- What the loops do to `out` when they have read an operand. -/
def Op.apply : Op → UInt64 → UInt64 → Fuelled String UInt64
  | .add, out, rhs => .ok (out + rhs)
  | .sub, out, rhs => .ok (if rhs > out then 0 else out - rhs)
  | .mul, out, rhs => .ok (out * rhs)
  | .div, out, rhs => if rhs = 0 then fail "division by zero" else .ok (out / rhs)
  | .mod, out, rhs => if rhs = 0 then fail "modulo by zero" else .ok (out % rhs)

/-- The number at the front of the text. `std::stoull` throws when it does not
fit 64 bits. -/
def parseNumber (s : List Char) : Parsed :=
  let n := decimal (s.takeWhile Char.isDigit)
  if n < 2 ^ 64 then .ok (UInt64.ofNat n, s.dropWhile Char.isDigit)
  else fail "invalid number"

/-- The identifier at the front of the text. -/
def parseIdent (vars : Vars) (s : List Char) : Parsed :=
  let name := String.ofList (s.takeWhile isWord)
  match vars name with
  | some v => .ok (v, s.dropWhile isWord)
  | none => fail ("unknown symbol: '" ++ name ++ "'")

/-- What is left once the bracket is closed. -/
def closeParen (out : UInt64) (s : List Char) : Parsed :=
  match skipWs s with
  | ')' :: s => .ok (out, s)
  | _ => fail "missing ')'"

mutual

def parseExpr (vars : Vars) : Nat → List Char → Parsed
  | 0, _ => .error .starved
  | fuel + 1, s => do
      let (out, s) ← parseTerm vars fuel s
      exprLoop vars fuel out s

/-- The `for` of `ParseExpr`. -/
def exprLoop (vars : Vars) : Nat → UInt64 → List Char → Parsed
  | 0, _, _ => .error .starved
  | fuel + 1, out, s =>
      match sumOp (skipWs s) with
      | some (op, s) => do
          let (rhs, s) ← parseTerm vars fuel s
          let out ← op.apply out rhs
          exprLoop vars fuel out s
      | none => .ok (out, skipWs s)

def parseTerm (vars : Vars) : Nat → List Char → Parsed
  | 0, _ => .error .starved
  | fuel + 1, s => do
      let (out, s) ← parseFactor vars fuel s
      termLoop vars fuel out s

/-- The `for` of `ParseTerm`. -/
def termLoop (vars : Vars) : Nat → UInt64 → List Char → Parsed
  | 0, _, _ => .error .starved
  | fuel + 1, out, s =>
      match scaleOp (skipWs s) with
      | some (op, s) => do
          let (rhs, s) ← parseFactor vars fuel s
          let out ← op.apply out rhs
          termLoop vars fuel out s
      | none => .ok (out, skipWs s)

def parseFactor (vars : Vars) : Nat → List Char → Parsed
  | 0, _ => .error .starved
  | fuel + 1, s =>
      match skipWs s with
      | [] => fail "unexpected end of expression"
      | c :: s =>
          if c = '(' then do
            let (out, s) ← parseExpr vars fuel s
            closeParen out s
          else if c.isDigit then parseNumber (c :: s)
          else if isHead c then parseIdent vars (c :: s)
          else fail ("unexpected character '" ++ String.singleton c ++ "'")

end

/-- `EvalEngine::Run`, within a number of steps. -/
def run (vars : Vars) (fuel : Nat) (expr : List Char) : Fuelled String UInt64 := do
  let (out, s) ← parseExpr vars fuel (skipWs expr)
  match skipWs s with
  | [] => .ok out
  | _ => fail ("trailing characters in expression: '" ++ String.ofList expr ++ "'")

/-- `ProtocolConfig::Eval`. A bracket takes three nested calls, and every turn
of a loop at least one character. -/
def eval (vars : Vars) (expr : List Char) : Fuelled String UInt64 :=
  run vars (3 * expr.length + 3) expr

example : eval (fun _ => some 7) "(gpu + 1) mod  mod".toList = .ok 1 := by
  decide +kernel

/-! ## Operators -/

variable {op : Op} {c : Char} {t : Token} {q r s : List Char} {ts : List Token} {out v : UInt64}
  {vars : Vars} {fuel : Nat} {e : Ast} {k : Category}

theorem Op.apply_eq_ok {a b c : UInt64} :
    op.apply a b = .ok c ↔ op.value a.toNat b.toNat = some c.toNat := by
  have zero : b = 0 ↔ b.toNat = 0 := by
    rw [← UInt64.toNat_inj]
    rfl
  cases op with
  | add =>
      simp only [Op.apply, Op.value, Except.ok.injEq, Option.some.injEq]
      rw [← UInt64.toNat_inj, UInt64.toNat_add]
  | sub =>
      simp only [Op.apply, Op.value, Except.ok.injEq, Option.some.injEq]
      rw [← UInt64.toNat_inj]
      split_ifs with less
      · have less' : a.toNat < b.toNat := UInt64.lt_iff_toNat_lt.1 less
        have zero' : (0 : UInt64).toNat = 0 := rfl
        omega
      · have le : b ≤ a := UInt64.not_lt.1 less
        rw [UInt64.toNat_sub_of_le a b le]
  | mul =>
      simp only [Op.apply, Op.value, Except.ok.injEq, Option.some.injEq]
      rw [← UInt64.toNat_inj, UInt64.toNat_mul]
  | div =>
      simp only [Op.apply, Op.value, fail, zero]
      split_ifs
      · simp
      · simp only [Except.ok.injEq, Option.some.injEq]
        rw [← UInt64.toNat_inj, UInt64.toNat_div]
  | mod =>
      simp only [Op.apply, Op.value, fail, zero]
      split_ifs
      · simp
      · simp only [Except.ok.injEq, Option.some.injEq]
        rw [← UInt64.toNat_inj, UInt64.toNat_mod]

theorem Op.apply_fed (op : Op) (a b : UInt64) : op.apply a b ≠ .error .starved := by
  cases op with
  | add => simp [Op.apply]
  | sub => simp [Op.apply]
  | mul => simp [Op.apply]
  | div => simp only [Op.apply, fail]; split_ifs <;> simp
  | mod => simp only [Op.apply, fail]; split_ifs <;> simp

theorem symbol_inj {d : Char} (hc : symbol c = some t) (hd : symbol d = some t) : c = d := by
  unfold symbol at hc hd
  split at hc
  all_goals cases hc
  all_goals
    split at hd
    all_goals first | rfl | cases hd

theorem munch_symbol (is : symbol c = some t) : Munch s t q ↔ s = c :: q := by
  constructor
  · intro munch
    cases munch with
    | symbol is' => rw [symbol_inj is' is]
    | num _ _ _ => exact absurd rfl ((symbol_ne is).1 _)
    | ident _ _ _ => exact absurd rfl ((symbol_ne is).2 _)
  · rintro rfl
    exact .symbol is

theorem consumeWord_mod : consumeWord ['m', 'o', 'd'] s = some q ↔ Munch s (.ident "mod") q := by
  unfold consumeWord peekWord
  constructor
  · intro found
    split_ifs at found with peek
    cases found
    obtain ⟨starts, ends⟩ := Bool.and_eq_true_iff.1 peek
    obtain ⟨q, rfl⟩ := List.isPrefixOf_iff_prefix.1 starts
    have follows : ∀ d ∈ q.head?, ¬ isWord d := by
      intro d first
      cases q with
      | nil => cases first
      | cons c q =>
          cases first
          simpa using ends
    have letters : ∀ d ∈ ['o', 'd'], isWord d :=
      List.forall_mem_cons.2 ⟨by decide, List.forall_mem_singleton.2 (by decide)⟩
    exact @Munch.ident 'm' ['o', 'd'] q (by decide) letters follows
  · intro munch
    generalize same : Token.ident "mod" = t at munch
    cases munch with
    | symbol is => exact absurd same.symm ((symbol_ne is).2 _)
    | num _ _ _ => cases same
    | @ident c word q _ _ ends =>
        have chars : c :: word = ['m', 'o', 'd'] := by
          have names := congrArg String.toList (Token.ident.inj same)
          rw [← String.toList_ofList (l := c :: word), ← names]
          rfl
        obtain ⟨rfl, rfl⟩ := List.cons.inj chars
        cases q with
        | nil => rfl
        | cons d q =>
            have plain : isWord d = false := by simpa using ends d rfl
            simp [plain]

theorem sumOp_eq_some : sumOp s = some (op, q) ↔ op.additive = true ∧ Munch s op.token q := by
  constructor
  · intro found
    unfold sumOp at found
    split at found
    · cases found
      exact ⟨rfl, .symbol rfl⟩
    · cases found
      exact ⟨rfl, .symbol rfl⟩
    · cases found
  · rintro ⟨additive, munch⟩
    cases op with
    | add =>
        obtain rfl := (munch_symbol (c := '+') rfl).1 munch
        rfl
    | sub =>
        obtain rfl := (munch_symbol (c := '-') rfl).1 munch
        rfl
    | mul => cases additive
    | div => cases additive
    | mod => cases additive

theorem scaleOp_eq_some : scaleOp s = some (op, q) ↔ op.additive = false ∧ Munch s op.token q := by
  constructor
  · intro found
    unfold scaleOp at found
    split at found
    · cases found
      exact ⟨rfl, .symbol rfl⟩
    · cases found
      exact ⟨rfl, .symbol rfl⟩
    · obtain ⟨r, word, same⟩ := Option.map_eq_some_iff.1 found
      cases same
      exact ⟨rfl, consumeWord_mod.1 word⟩
  · rintro ⟨scales, munch⟩
    cases op with
    | add => cases scales
    | sub => cases scales
    | mul =>
        obtain rfl := (munch_symbol (c := '*') rfl).1 munch
        rfl
    | div =>
        obtain rfl := (munch_symbol (c := '/') rfl).1 munch
        rfl
    | mod =>
        have word := consumeWord_mod.2 munch
        -- The word does not begin with `*` or `/`.
        unfold scaleOp
        split
        · cases word
        · cases word
        · simp [word]

/-! ## Reading what the evaluator reads -/

theorem Reads.skipWs_eq (reads : Reads s [] r) : skipWs s = skipWs r := by
  generalize none : ([] : List Token) = ts at reads
  induction reads with
  | done s => rfl
  | space blank _ ih =>
      rw [← ih none]
      simp [skipWs, blank]
  | token _ _ _ => cases none

theorem Reads.blanks (reads : Reads (skipWs s) ts r) : Reads s ts r := by
  induction s with
  | nil => exact reads
  | cons c s ih =>
      cases blank : isspace c with
      | true =>
          apply Reads.space blank
          apply ih
          simpa [skipWs, blank] using reads
      | false => simpa [skipWs, blank] using reads

theorem Munch.skipWs_eq (munch : Munch s t q) : skipWs s = s := by
  obtain ⟨c, r, rfl, plain⟩ := munch.starts
  simp [skipWs, plain]

theorem Reads.next (reads : Reads s (t :: ts) r) : ∃ q, Munch (skipWs s) t q ∧ Reads q ts r := by
  generalize same : t :: ts = all at reads
  induction reads with
  | done s => cases same
  | space blank _ ih =>
      obtain ⟨q, munch, rest⟩ := ih same
      refine ⟨q, ?_, rest⟩
      simpa [skipWs, blank] using munch
  | token munch rest _ =>
      cases same
      refine ⟨_, ?_, rest⟩
      rw [munch.skipWs_eq]
      exact munch

theorem Reads.of_munch (munch : Munch (skipWs s) t q) (rest : Reads q ts r) : Reads s (t :: ts) r :=
  Reads.blanks (.token munch rest)

/-! ## Factors -/

theorem closeParen_eq_ok :
    closeParen out s = .ok (v, r) ↔ v = out ∧ Munch (skipWs s) .rparen r := by
  rw [munch_symbol (c := ')') rfl]
  unfold closeParen
  split
  case h_1 q closed => simp [closed, eq_comm]
  case h_2 other =>
    constructor
    · intro ok
      cases ok
    · rintro ⟨-, closed⟩
      exact absurd closed (other r)

theorem munch_digit (digit : c.isDigit = true) :
    Munch (c :: s) t q ↔
      t = .num (decimal ((c :: s).takeWhile Char.isDigit)) ∧
        q = (c :: s).dropWhile Char.isDigit := by
  have plain : symbol c = none := by
    cases is : symbol c with
    | none => rfl
    | some t => simp [(symbol_alone is).1] at digit
  rw [← munch?_eq_some]
  simp [munch?, plain, digit, eq_comm]

theorem munch_head (head : isHead c = true) :
    Munch (c :: s) t q ↔
      t = .ident (String.ofList ((c :: s).takeWhile isWord)) ∧ q = (c :: s).dropWhile isWord := by
  have plain : symbol c = none := by
    cases is : symbol c with
    | none => rfl
    | some t => simp [(symbol_alone is).2.1] at head
  have letter : c.isDigit = false := by
    cases digit : c.isDigit with
    | false => rfl
    | true => simp [isHead_of_isDigit digit] at head
  have word : isWord c = true := by
    simp only [isHead, Bool.or_eq_true] at head
    simp only [isWord, Char.isAlphanum, Bool.or_eq_true]
    rcases head with alpha | low
    · exact .inl (.inl alpha)
    · exact .inr low
  rw [← munch?_eq_some]
  simp [munch?, plain, letter, head, word, eq_comm]

/-- The three ways in which `ParseFactor` returns. -/
theorem parseFactor_eq_ok :
    parseFactor vars (fuel + 1) s = .ok (v, r) ↔
      (∃ q p, Munch (skipWs s) .lparen q ∧ parseExpr vars fuel q = .ok (v, p) ∧
        Munch (skipWs p) .rparen r) ∨
      (∃ n, Munch (skipWs s) (.num n) r ∧ n < 2 ^ 64 ∧ v = UInt64.ofNat n) ∨
      (∃ name, Munch (skipWs s) (.ident name) r ∧ vars name = some v) := by
  rw [parseFactor]
  generalize skipWs s = text
  cases text with
  | nil =>
      have none : ∀ t q, ¬ Munch [] t q := by
        intro t q munch
        obtain ⟨c, r, same, -⟩ := munch.starts
        cases same
      simp [fail, none]
  | cons c s =>
      show (if c = '(' then _ else _) = _ ↔ _
      split_ifs with paren digit head
      · subst paren
        have only : ∀ t q, Munch ('(' :: s) t q ↔ t = .lparen ∧ q = s := by
          intro t q
          rw [← munch?_eq_some]
          simp [munch?, symbol, eq_comm]
        simp only [only, bind_eq_ok, Prod.exists, closeParen_eq_ok]
        constructor
        · rintro ⟨out, p, inner, rfl, closed⟩
          exact .inl ⟨s, p, ⟨trivial, rfl⟩, inner, closed⟩
        · rintro (⟨q, p, ⟨-, rfl⟩, inner, closed⟩ | ⟨n, ⟨same, -⟩, -⟩ | ⟨name, ⟨same, -⟩, -⟩)
          · exact ⟨v, p, inner, rfl, closed⟩
          · cases same
          · cases same
      · simp only [munch_digit digit, parseNumber, fail]
        constructor
        · intro ok
          split_ifs at ok with fits
          cases ok
          exact .inr (.inl ⟨_, ⟨rfl, rfl⟩, fits, rfl⟩)
        · rintro (⟨q, p, ⟨same, -⟩, -⟩ | ⟨n, ⟨same, rfl⟩, fits, rfl⟩ | ⟨name, ⟨same, -⟩, -⟩)
          · cases same
          · cases same
            rw [if_pos fits]
          · cases same
      · simp only [munch_head head, parseIdent, fail]
        constructor
        · intro ok
          split at ok
          case h_1 bound =>
            cases ok
            exact .inr (.inr ⟨_, ⟨rfl, rfl⟩, bound⟩)
          case h_2 => cases ok
        · rintro (⟨q, p, ⟨same, -⟩, -⟩ | ⟨n, ⟨same, -⟩, -⟩ | ⟨name, ⟨same, rfl⟩, bound⟩)
          · cases same
          · cases same
          · cases same
            rw [bound]
      · have only : ∀ t q, Munch (c :: s) t q ↔ symbol c = some t ∧ q = s := by
          intro t q
          rw [← munch?_eq_some]
          cases is : symbol c with
          | none => simp [munch?, is, digit, head]
          | some t => simp [munch?, is, eq_comm]
        simp only [only, fail]
        constructor
        · intro ok
          cases ok
        · rintro (⟨q, p, ⟨is, -⟩, -⟩ | ⟨n, ⟨is, -⟩, -⟩ | ⟨name, ⟨is, -⟩, -⟩)
          · exact absurd (symbol_inj is (d := '(') rfl) paren
          · exact absurd rfl ((symbol_ne is).1 n)
          · exact absurd rfl ((symbol_ne is).2 name)

/-! ## Fuel -/

/-- All five functions say no less with one step more. -/
structure Growing (vars : Vars) (fuel : Nat) : Prop where
  expr : ∀ s, Within (parseExpr vars fuel s) (parseExpr vars (fuel + 1) s)
  exprLoop : ∀ out s, Within (exprLoop vars fuel out s) (exprLoop vars (fuel + 1) out s)
  term : ∀ s, Within (parseTerm vars fuel s) (parseTerm vars (fuel + 1) s)
  termLoop : ∀ out s, Within (termLoop vars fuel out s) (termLoop vars (fuel + 1) out s)
  factor : ∀ s, Within (parseFactor vars fuel s) (parseFactor vars (fuel + 1) s)

theorem growing (vars : Vars) (fuel : Nat) : Growing vars fuel := by
  induction fuel with
  | zero =>
      exact ⟨fun _ => .starved _, fun _ _ => .starved _, fun _ => .starved _,
        fun _ _ => .starved _, fun _ => .starved _⟩
  | succ fuel ih =>
      constructor
      · intro s
        rw [parseExpr, parseExpr]
        exact .bind (ih.term s) fun a => ih.exprLoop a.1 a.2
      · intro out s
        rw [Config.exprLoop, Config.exprLoop]
        split
        · exact .bind (ih.term _) fun a => .bind (.refl _) fun b => ih.exprLoop b a.2
        · exact .refl _
      · intro s
        rw [parseTerm, parseTerm]
        exact .bind (ih.factor s) fun a => ih.termLoop a.1 a.2
      · intro out s
        rw [Config.termLoop, Config.termLoop]
        split
        · exact .bind (ih.factor _) fun a => .bind (.refl _) fun b => ih.termLoop b a.2
        · exact .refl _
      · intro s
        rw [parseFactor, parseFactor]
        split
        · exact .refl _
        · split_ifs
          · exact .bind (ih.expr _) fun a => .refl _
          · exact .refl _
          · exact .refl _
          · exact .refl _

theorem grows_run (vars : Vars) (expr : List Char) : Grows fun fuel => run vars fuel expr := by
  intro fuel
  exact .bind ((growing vars fuel).expr _) fun a => .refl _

/-! ## Soundness -/

/-- The bindings as the grammar has them. -/
def Vars.values (vars : Vars) (name : String) : Option Nat :=
  (vars name).map UInt64.toNat

/-- What each of the five functions returns is the value of what it read. The
loops extend the phrase that stands in `out`. -/
structure Sound (vars : Vars) (fuel : Nat) : Prop where
  expr : ∀ {s v r}, parseExpr vars fuel s = .ok (v, r) → ∃ ts e,
    Reads s ts r ∧ Derives .expr ts e ∧ e.value vars.values = some v.toNat
  exprLoop : ∀ {out s v r ts e}, exprLoop vars fuel out s = .ok (v, r) →
    Derives .expr ts e → e.value vars.values = some out.toNat → ∃ us f,
      Reads s us r ∧ Derives .expr (ts ++ us) f ∧ f.value vars.values = some v.toNat
  term : ∀ {s v r}, parseTerm vars fuel s = .ok (v, r) → ∃ ts e,
    Reads s ts r ∧ Derives .term ts e ∧ e.value vars.values = some v.toNat
  termLoop : ∀ {out s v r ts e}, termLoop vars fuel out s = .ok (v, r) →
    Derives .term ts e → e.value vars.values = some out.toNat → ∃ us f,
      Reads s us r ∧ Derives .term (ts ++ us) f ∧ f.value vars.values = some v.toNat
  factor : ∀ {s v r}, parseFactor vars fuel s = .ok (v, r) → ∃ ts e,
    Reads s ts r ∧ Derives .factor ts e ∧ e.value vars.values = some v.toNat

theorem value_binary {f : Ast} {a b c : UInt64} (left : e.value vars.values = some a.toNat)
    (right : f.value vars.values = some b.toNat) (applied : op.apply a b = .ok c) :
    (Ast.binary op e f).value vars.values = some c.toNat := by
  simp [Ast.value, left, right, Op.apply_eq_ok.1 applied]

theorem reads_skipWs (s : List Char) : Reads s [] (skipWs s) :=
  Reads.blanks (.done _)

theorem sound (vars : Vars) (fuel : Nat) : Sound vars fuel := by
  induction fuel with
  | zero =>
      constructor
      all_goals
        intros
        contradiction
  | succ fuel ih =>
      constructor
      · intro s v r ok
        rw [parseExpr] at ok
        obtain ⟨⟨out, q⟩, first, loop⟩ := bind_eq_ok.1 ok
        obtain ⟨ts, e, reads, derives, value⟩ := ih.term first
        obtain ⟨us, f, reads', derives', value'⟩ := ih.exprLoop loop (.term derives) value
        exact ⟨ts ++ us, f, reads.trans reads', derives', value'⟩
      · intro out s v r ts e ok derives value
        rw [Config.exprLoop] at ok
        split at ok
        case h_1 op q found =>
          obtain ⟨⟨rhs, p⟩, operand, ok⟩ := bind_eq_ok.1 ok
          obtain ⟨next, applied, loop⟩ := bind_eq_ok.1 ok
          obtain ⟨additive, munch⟩ := sumOp_eq_some.1 found
          obtain ⟨us, f, reads, right, value'⟩ := ih.term operand
          obtain ⟨ws, g, reads', derives', value''⟩ :=
            ih.exprLoop loop (.sum op additive derives right) (value_binary value value' applied)
          refine ⟨op.token :: us ++ ws, g, ?_, ?_, value''⟩
          · exact Reads.of_munch munch (reads.trans reads')
          · simpa using derives'
        case h_2 =>
          cases ok
          exact ⟨[], e, reads_skipWs s, by simpa using derives, value⟩
      · intro s v r ok
        rw [parseTerm] at ok
        obtain ⟨⟨out, q⟩, first, loop⟩ := bind_eq_ok.1 ok
        obtain ⟨ts, e, reads, derives, value⟩ := ih.factor first
        obtain ⟨us, f, reads', derives', value'⟩ := ih.termLoop loop (.factor derives) value
        exact ⟨ts ++ us, f, reads.trans reads', derives', value'⟩
      · intro out s v r ts e ok derives value
        rw [Config.termLoop] at ok
        split at ok
        case h_1 op q found =>
          obtain ⟨⟨rhs, p⟩, operand, ok⟩ := bind_eq_ok.1 ok
          obtain ⟨next, applied, loop⟩ := bind_eq_ok.1 ok
          obtain ⟨scales, munch⟩ := scaleOp_eq_some.1 found
          obtain ⟨us, f, reads, right, value'⟩ := ih.factor operand
          obtain ⟨ws, g, reads', derives', value''⟩ :=
            ih.termLoop loop (.scale op scales derives right) (value_binary value value' applied)
          refine ⟨op.token :: us ++ ws, g, ?_, ?_, value''⟩
          · exact Reads.of_munch munch (reads.trans reads')
          · simpa using derives'
        case h_2 =>
          cases ok
          exact ⟨[], e, reads_skipWs s, by simpa using derives, value⟩
      · intro s v r ok
        rcases parseFactor_eq_ok.1 ok with
          ⟨q, p, opened, inner, closed⟩ | ⟨n, munch, fits, rfl⟩ | ⟨name, munch, bound⟩
        · obtain ⟨ts, e, reads, derives, value⟩ := ih.expr inner
          refine ⟨.lparen :: (ts ++ [.rparen]), e, ?_, .paren derives, value⟩
          exact Reads.of_munch opened (reads.trans (Reads.of_munch closed (.done _)))
        · refine ⟨[.num n], .num n, Reads.of_munch munch (.done _), .number fits, ?_⟩
          have small : (UInt64.ofNat n).toNat = n := UInt64.toNat_ofNat_of_lt' fits
          simp only [Ast.value, small]
        · refine ⟨[.ident name], .var name, Reads.of_munch munch (.done _), .ident name, ?_⟩
          simp [Ast.value, Vars.values, bound]

/-! ## The fuel of `Eval` is enough -/

theorem Sound.length_lt
    (h : ∃ ts e, Reads s ts r ∧ Derives k ts e ∧ e.value vars.values = some v.toNat) :
    r.length < s.length := by
  obtain ⟨ts, e, reads, derives, -⟩ := h
  exact reads.length_lt derives.ne_nil

theorem length_skipWs_le (s : List Char) : (skipWs s).length ≤ s.length :=
  (reads_skipWs s).length_le

theorem closeParen_fed (out : UInt64) (s : List Char) :
    closeParen out s ≠ .error .starved := by
  unfold closeParen
  split
  all_goals simp [fail]

theorem parseNumber_fed (s : List Char) : parseNumber s ≠ .error .starved := by
  simp only [parseNumber, fail]
  split_ifs
  all_goals simp

theorem parseIdent_fed (vars : Vars) (s : List Char) :
    parseIdent vars s ≠ .error .starved := by
  simp only [parseIdent, fail]
  cases vars (String.ofList (s.takeWhile isWord)) <;> simp

/-- How many steps each function takes at most. -/
structure Fed (vars : Vars) (fuel : Nat) : Prop where
  expr : ∀ s : List Char, 3 * s.length + 3 ≤ fuel → parseExpr vars fuel s ≠ .error .starved
  exprLoop : ∀ out (s : List Char), 3 * s.length + 2 ≤ fuel →
    exprLoop vars fuel out s ≠ .error .starved
  term : ∀ s : List Char, 3 * s.length + 2 ≤ fuel → parseTerm vars fuel s ≠ .error .starved
  termLoop : ∀ out (s : List Char), 3 * s.length + 1 ≤ fuel →
    termLoop vars fuel out s ≠ .error .starved
  factor : ∀ s : List Char, 3 * s.length + 1 ≤ fuel → parseFactor vars fuel s ≠ .error .starved

theorem fed (vars : Vars) (fuel : Nat) : Fed vars fuel := by
  induction fuel with
  | zero =>
      constructor
      all_goals
        intros
        omega
  | succ fuel ih =>
      constructor
      · intro s enough
        rw [parseExpr]
        apply bind_fed (ih.term s (by omega))
        rintro ⟨out, q⟩ first
        have shorter := Sound.length_lt ((sound vars fuel).term first)
        exact ih.exprLoop out q (by omega)
      · intro out s enough
        rw [Config.exprLoop]
        have blanks := length_skipWs_le s
        split
        case h_1 op q found =>
          have less := (sumOp_eq_some.1 found).2.length_lt
          apply bind_fed (ih.term q (by omega))
          rintro ⟨rhs, p⟩ operand
          have shorter := Sound.length_lt ((sound vars fuel).term operand)
          apply bind_fed (op.apply_fed out rhs)
          intro next applied
          exact ih.exprLoop next p (by omega)
        case h_2 => simp
      · intro s enough
        rw [parseTerm]
        apply bind_fed (ih.factor s (by omega))
        rintro ⟨out, q⟩ first
        have shorter := Sound.length_lt ((sound vars fuel).factor first)
        exact ih.termLoop out q (by omega)
      · intro out s enough
        rw [Config.termLoop]
        have blanks := length_skipWs_le s
        split
        case h_1 op q found =>
          have less := (scaleOp_eq_some.1 found).2.length_lt
          apply bind_fed (ih.factor q (by omega))
          rintro ⟨rhs, p⟩ operand
          have shorter := Sound.length_lt ((sound vars fuel).factor operand)
          apply bind_fed (op.apply_fed out rhs)
          intro next applied
          exact ih.termLoop next p (by omega)
        case h_2 => simp
      · intro s enough
        rw [parseFactor]
        have blanks := length_skipWs_le s
        split
        case h_1 => simp [fail]
        case h_2 c q same =>
          rw [same, List.length_cons] at blanks
          split_ifs
          · apply bind_fed (ih.expr q (by omega))
            rintro ⟨out, p⟩ -
            exact closeParen_fed out p
          · exact parseNumber_fed _
          · exact parseIdent_fed vars _
          · simp [fail]

/-! ## Completeness -/

theorem exprLoop_congr (same : skipWs s = skipWs r)
    : exprLoop vars fuel out s = exprLoop vars fuel out r := by
  cases fuel with
  | zero => rfl
  | succ fuel => rw [exprLoop, exprLoop, same]

theorem termLoop_congr (same : skipWs s = skipWs r)
    : termLoop vars fuel out s = termLoop vars fuel out r := by
  cases fuel with
  | zero => rfl
  | succ fuel => rw [termLoop, termLoop, same]

/-- A sentence has a value of 64 bits. -/
theorem Derives.value_lt (derives : Derives k ts e)
    : ∀ n, e.value vars.values = some n → n < 2 ^ 64 := by
  have binary : ∀ (op : Op) (e f : Ast), (∀ n, e.value vars.values = some n → n < 2 ^ 64) →
      ∀ n, (Ast.binary op e f).value vars.values = some n → n < 2 ^ 64 := by
    intro op e f left n value
    simp only [Ast.value, Option.bind_eq_bind, Option.bind_eq_some_iff] at value
    obtain ⟨a, ha, b, -, value⟩ := value
    have small := left a ha
    cases op with
    | add | sub =>
        simp only [Op.value, Option.some.injEq] at value
        omega
    | mul =>
        simp only [Op.value, Option.some.injEq] at value
        rw [← value]
        exact Nat.mod_lt _ (by decide)
    | div =>
        simp only [Op.value] at value
        split_ifs at value
        simp only [Option.some.injEq] at value
        exact value ▸ (Nat.div_le_self a b).trans_lt small
    | mod =>
        simp only [Op.value] at value
        split_ifs at value
        simp only [Option.some.injEq] at value
        exact value ▸ (Nat.mod_le a b).trans_lt small
  induction derives with
  | number fits =>
      intro n value
      cases value
      exact fits
  | ident name =>
      intro n value
      simp only [Ast.value, Vars.values, Option.map_eq_some_iff] at value
      obtain ⟨v, -, rfl⟩ := value
      exact v.toNat_lt
  | paren _ ih => exact ih
  | factor _ ih => exact ih
  | scale op _ _ _ left _ => exact binary op _ _ left
  | term _ ih => exact ih
  | sum op _ _ _ left _ => exact binary op _ _ left

theorem Derives.operands {l : Category} {us : List Token} {f : Ast} (left : Derives k ts e)
    (right : Derives l us f) (value : (Ast.binary op e f).value vars.values = some v.toNat) :
    ∃ a b : UInt64, e.value vars.values = some a.toNat ∧ f.value vars.values = some b.toNat ∧
      op.apply a b = .ok v := by
  simp only [Ast.value, Option.bind_eq_bind, Option.bind_eq_some_iff] at value
  obtain ⟨a, ha, b, hb, value⟩ := value
  have fits := left.value_lt a ha
  have fits' := right.value_lt b hb
  refine ⟨UInt64.ofNat a, UInt64.ofNat b, ?_, ?_, ?_⟩
  · rw [ha, UInt64.toNat_ofNat', Nat.mod_eq_of_lt fits]
  · rw [hb, UInt64.toNat_ofNat', Nat.mod_eq_of_lt fits']
  · rw [Op.apply_eq_ok, UInt64.toNat_ofNat', UInt64.toNat_ofNat', Nat.mod_eq_of_lt fits,
      Nat.mod_eq_of_lt fits']
    exact value

/-- Whatever follows a sentence of the grammar, the functions read the
sentence and go on behind it. A term ends where no further operator of its own
stands, which the caller of `ParseExpr` has to bring. -/
def Continues (vars : Vars) : Category → List Char → UInt64 → List Char → Prop
  | .factor, s, v, r =>
      ∃ fuel p, parseFactor vars fuel s = .ok (v, p) ∧ skipWs p = skipWs r
  | .term, s, v, r =>
      ∀ res, (∃ fuel, termLoop vars fuel v r = .ok res) →
        ∃ fuel, parseTerm vars fuel s = .ok res
  | .expr, s, v, r =>
      scaleOp (skipWs r) = none → ∀ res, (∃ fuel, exprLoop vars fuel v r = .ok res) →
        ∃ fuel, parseExpr vars fuel s = .ok res

theorem termLoop_stops (out : UInt64) (stops : scaleOp (skipWs r) = none)
    : termLoop vars 1 out r = .ok (out, skipWs r) := by
  rw [termLoop, stops]

theorem scaleOp_none (munch : Munch s t q) (other : ∀ op : Op, op.additive = false → t ≠ op.token)
    : scaleOp s = none := by
  cases found : scaleOp s with
  | none => rfl
  | some next =>
      obtain ⟨op, p⟩ := next
      obtain ⟨scales, munch'⟩ := scaleOp_eq_some.1 found
      exact absurd (munch.unique munch').1 (other op scales)

theorem sumOp_none (munch : Munch s t q) (other : ∀ op : Op, op.additive = true → t ≠ op.token)
    : sumOp s = none := by
  cases found : sumOp s with
  | none => rfl
  | some next =>
      obtain ⟨op, p⟩ := next
      obtain ⟨sums, munch'⟩ := sumOp_eq_some.1 found
      exact absurd (munch.unique munch').1 (other op sums)

theorem continues (vars : Vars) (derives : Derives k ts e) : ∀ s r v, Reads s ts r →
      e.value vars.values = some v.toNat → Continues vars k s v r := by
  have growing := growing vars
  induction derives with
  | @number n fits =>
      intro s r v reads value
      obtain ⟨q, munch, rest⟩ := reads.next
      refine ⟨1, q, parseFactor_eq_ok.2 (.inr (.inl ⟨n, munch, fits, ?_⟩)), rest.skipWs_eq⟩
      apply UInt64.toNat_inj.1
      rw [UInt64.toNat_ofNat', Nat.mod_eq_of_lt fits]
      simpa [Ast.value, eq_comm] using value
  | ident name =>
      intro s r v reads value
      obtain ⟨q, munch, rest⟩ := reads.next
      refine ⟨1, q, parseFactor_eq_ok.2 (.inr (.inr ⟨name, munch, ?_⟩)), rest.skipWs_eq⟩
      simp only [Ast.value, Vars.values, Option.map_eq_some_iff] at value
      obtain ⟨w, bound, same⟩ := value
      rw [bound, UInt64.toNat_inj.1 same]
  | @paren ts e _ ih =>
      intro s r v reads value
      obtain ⟨q, opened, inner⟩ := reads.next
      obtain ⟨p, inner, closing⟩ := inner.split
      obtain ⟨o, closed, rest⟩ := closing.next
      -- The bracket ends the expression, and with it its last term.
      have stops : scaleOp (skipWs p) = none :=
        scaleOp_none closed (by rintro ⟨⟩ <;> decide)
      have ends : exprLoop vars 1 v p = .ok (v, skipWs p) := by
        rw [exprLoop, sumOp_none closed (by rintro ⟨⟩ <;> decide)]
      obtain ⟨fuel, parsed⟩ := ih q p v inner value stops _ ⟨1, ends⟩
      refine ⟨fuel + 1, o, parseFactor_eq_ok.2 (.inl ⟨q, _, opened, parsed, ?_⟩),
        rest.skipWs_eq⟩
      rwa [closed.skipWs_eq]
  | factor _ ih =>
      rintro s r v reads value res ⟨fuel, loop⟩
      obtain ⟨fuel', p, first, same⟩ := ih s r v reads value
      refine ⟨max fuel fuel' + 1, ?_⟩
      rw [parseTerm]
      apply bind_eq_ok.2
      refine ⟨(v, p), ?_, ?_⟩
      · exact Grows.ok (fun n => (growing n).factor s) (le_max_right _ _) first
      · show termLoop vars _ v p = _
        rw [termLoop_congr same]
        exact Grows.ok (fun n => (growing n).termLoop v r) (le_max_left _ _) loop
  | scale op scales left right ih ih' =>
      rintro s r v reads value res ⟨fuel, loop⟩
      obtain ⟨a, b, ha, hb, applied⟩ := left.operands right value
      obtain ⟨q, before, after⟩ := reads.split
      obtain ⟨q', munch, operand⟩ := after.next
      obtain ⟨fuel', p, parsed, same⟩ := ih' q' r b operand hb
      apply ih s q a before ha
      refine ⟨max fuel fuel' + 1, ?_⟩
      rw [termLoop, scaleOp_eq_some.2 ⟨scales, munch⟩]
      apply bind_eq_ok.2
      refine ⟨(b, p), ?_, ?_⟩
      · exact Grows.ok (fun n => (growing n).factor q') (le_max_right _ _) parsed
      · apply bind_eq_ok.2
        refine ⟨v, applied, ?_⟩
        rw [termLoop_congr same]
        exact Grows.ok (fun n => (growing n).termLoop v r) (le_max_left _ _) loop
  | term _ ih =>
      rintro s r v reads value stops res ⟨fuel, loop⟩
      obtain ⟨fuel', parsed⟩ := ih s r v reads value _ ⟨1, termLoop_stops v stops⟩
      refine ⟨max fuel fuel' + 1, ?_⟩
      rw [parseExpr]
      apply bind_eq_ok.2
      refine ⟨(v, skipWs r), ?_, ?_⟩
      · exact Grows.ok (fun n => (growing n).term s) (le_max_right _ _) parsed
      · show exprLoop vars _ v (skipWs r) = _
        rw [exprLoop_congr (reads_skipWs r).skipWs_eq.symm]
        exact Grows.ok (fun n => (growing n).exprLoop v r) (le_max_left _ _) loop
  | sum op sums left right ih ih' =>
      rintro s r v reads value stops res ⟨fuel, loop⟩
      obtain ⟨a, b, ha, hb, applied⟩ := left.operands right value
      obtain ⟨q, before, after⟩ := reads.split
      obtain ⟨q', munch, operand⟩ := after.next
      obtain ⟨fuel', parsed⟩ := ih' q' r b operand hb _ ⟨1, termLoop_stops b stops⟩
      -- The operator ends the last term of what stands before it.
      have stops' : scaleOp (skipWs q) = none := by
        apply scaleOp_none munch
        intro other scales same
        cases op <;> cases sums
        all_goals cases other <;> cases scales <;> cases same
      apply ih s q a before ha stops'
      refine ⟨max fuel fuel' + 1, ?_⟩
      rw [exprLoop, sumOp_eq_some.2 ⟨sums, munch⟩]
      apply bind_eq_ok.2
      refine ⟨(b, skipWs r), ?_, ?_⟩
      · exact Grows.ok (fun n => (growing n).term q') (le_max_right _ _) parsed
      · apply bind_eq_ok.2
        refine ⟨v, applied, ?_⟩
        rw [exprLoop_congr (reads_skipWs r).skipWs_eq.symm]
        exact Grows.ok (fun n => (growing n).exprLoop v r) (le_max_left _ _) loop

/-! ## The evaluator and the grammar -/

theorem eval_fed (vars : Vars) (expr : List Char) : eval vars expr ≠ .error .starved := by
  have blanks := length_skipWs_le expr
  apply bind_fed ((fed vars _).expr _ (by omega))
  rintro ⟨out, s⟩ -
  show (match skipWs s with | [] => _ | _ => _) ≠ _
  split
  all_goals simp [fail]

theorem eval_sound {expr : List Char} (ok : eval vars expr = .ok v) :
    ∃ ts e, Lexes expr ts ∧ Derives .expr ts e ∧ e.value vars.values = some v.toNat := by
  obtain ⟨⟨out, s⟩, parsed, rest⟩ := bind_eq_ok.1 ok
  obtain ⟨ts, e, reads, derives, value⟩ := (sound vars _).expr parsed
  change (match skipWs s with | [] => _ | _ => _) = _ at rest
  split at rest
  case h_1 ended =>
    cases rest
    have whole := reads.blanks.trans (reads_skipWs s)
    rw [ended, List.append_nil] at whole
    exact ⟨ts, e, whole, derives, value⟩
  case h_2 => cases rest

theorem eval_complete {expr : List Char} (lexes : Lexes expr ts) (derives : Derives .expr ts e)
    (value : e.value vars.values = some v.toNat) : eval vars expr = .ok v := by
  have front : Reads (skipWs expr) ts [] := by
    cases ts with
    | nil => exact absurd rfl derives.ne_nil
    | cons t ts =>
        obtain ⟨q, munch, rest⟩ := Reads.next lexes
        exact .token munch rest
  have ends : exprLoop vars 1 v [] = .ok (v, []) := rfl
  obtain ⟨fuel, parsed⟩ := continues vars derives _ _ v front value rfl _ ⟨1, ends⟩
  have settled : run vars fuel expr = .ok v := by
    apply bind_eq_ok.2
    exact ⟨(v, []), parsed, rfl⟩
  have returned : run vars fuel expr ≠ .error .starved := by
    rw [settled]
    simp
  have agree : run vars fuel expr = eval vars expr :=
    (grows_run vars expr).agree returned (eval_fed vars expr)
  exact agree.symm.trans settled

/-- `Eval` comes to an end, and it succeeds on exactly the texts that spell a
sentence of the grammar with a value, which it returns. -/
theorem eval_decides (vars : Vars) (expr : List Char) :
    (eval vars expr ≠ .error .starved) ∧
    ∀ v : UInt64, eval vars expr = .ok v ↔
      ∃ ts e, Lexes expr ts ∧ Derives .expr ts e ∧ e.value vars.values = some v.toNat := by
  refine ⟨eval_fed vars expr, fun v => ⟨eval_sound, ?_⟩⟩
  rintro ⟨ts, e, lexes, derives, value⟩
  exact eval_complete lexes derives value

end ProtoBridge.Config
