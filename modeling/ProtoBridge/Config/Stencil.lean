import ProtoBridge.Lib.SortedMap
import ProtoBridge.Config.EvalEngine
import ProtoBridge.Config.Load

/-!
# Replication and stencils

The first half of `ProtocolConfig::Compile`: the parameters, the bounds of the replicate
dimensions, the loops over them, and the transfer stencils by index.

The loops are bounded by fuel. One whose upper bound is the largest 64-bit number never
ends (`expand_starved`), and `std::stoul` throws at an index that does not begin with a
number.
-/

namespace ProtoBridge.Config

open Lib

/-- What `std::stoul` and `substr` throw. -/
inductive Thrown
  | invalidArgument
  | outOfRange
  deriving DecidableEq

/-- Why `Compile` gives no node: it says so in `error`, or an exception leaves it. -/
inductive Failure
  | rejected (message : String)
  | thrown (what : Thrown)
  deriving DecidableEq

/-- A part of `Compile`, on a bounded number of turns of its loops. -/
abbrev Compiled (α : Type) := Fuelled Failure α

/-- `return PROTOCOL_TRANSACTION_INVALID_NODE`, with the error. -/
def reject {α : Type} (message : String) : Compiled α := .error (.failed (.rejected message))

/-- `Eval`, with what becomes of its error. -/
def evalOr (vars : Vars) (expr : List Char) (describe : String → String) : Compiled UInt64 :=
  match eval vars expr with
  | .ok v => .ok v
  | .error (.failed e) => reject (describe e)
  | .error .starved => .error .starved

/-! ## Parameters and bounds -/

/-- The symbols every expression knows. -/
def baseVars (numGpus : UInt16) (dataSize : UInt64) : Vars :=
  Function.update (Function.update (fun _ => none) "numGpus" (some numGpus.toUInt64)) "dataSize"
    (some dataSize)

/-- The parameters, in the order of their declaration. -/
def bindParams : List (String × List Char) → Vars → Compiled Vars
  | [], vars => .ok vars
  | (name, expr) :: rest, vars => do
      let v ← evalOr vars expr fun e =>
        "param." ++ name ++ " = '" ++ String.ofList expr ++ "': " ++ e
      bindParams rest (Function.update vars name (some v))

/-- `ResolvedDim`. -/
structure ResolvedDim where
  var : String
  lo : UInt64
  hi : UInt64
  deriving DecidableEq

def resolveDim (vars : Vars) (d : Dim) : Compiled ResolvedDim := do
  let lo ← evalOr vars d.loExpr fun e => "replicate." ++ d.var ++ " lo: " ++ e
  let hi ← evalOr vars d.hiExpr fun e => "replicate." ++ d.var ++ " hi: " ++ e
  if hi < lo then reject ("replicate." ++ d.var ++ " hi < lo")
  else .ok { var := d.var, lo, hi }

def resolveDims (vars : Vars) : List Dim → Compiled (List ResolvedDim)
  | [] => .ok []
  | d :: rest => do
      let r ← resolveDim vars d
      let rs ← resolveDims vars rest
      .ok (r :: rs)

/-! ## Instances -/

/-- `for (v = lo; v <= hi; ++v)`, collecting what the turns push. -/
def forRange {α : Type} (body : UInt64 → Compiled (List α)) (hi : UInt64) :
    Nat → UInt64 → Compiled (List α)
  | 0, _ => .error .starved
  | fuel + 1, v =>
      if v ≤ hi then do
        let pushed ← body v
        let rest ← forRange body hi fuel (v + 1)
        .ok (pushed ++ rest)
      else .ok []

/-- `expand`. The loops overwrite `binding` on the way in, so what an earlier turn left
there is not seen. -/
def expand (fuel : Nat) : List ResolvedDim → Vars → Compiled (List Vars)
  | [], binding => .ok [binding]
  | d :: rest, binding =>
      forRange (fun v => expand fuel rest (Function.update binding d.var (some v))) d.hi fuel d.lo

/-- Step 3 of `Compile`. -/
def instances (fuel : Nat) (dims : List ResolvedDim) : Compiled (List Vars) := do
  let pushed ← expand fuel dims fun _ => none
  .ok (if pushed = [] then [fun _ => none] else pushed)

/-! ## Transfers -/

/-- `std::stoul`: blanks, a sign, digits; the rest of the text is not looked at. -/
def stoul (s : List Char) : Except Thrown Nat :=
  let s := s.dropWhile isspace
  let negative := s.head? = some '-'
  let digits := (if s.head? = some '-' ∨ s.head? = some '+' then s.tail else s).takeWhile Char.isDigit
  if digits = [] then .error .invalidArgument
  else if 2 ^ 64 ≤ decimal digits then .error .outOfRange
  else .ok (if negative then (2 ^ 64 - decimal digits) % 2 ^ 64 else decimal digits)

/-- The fields of a transfer. -/
abbrev Stencil := List Char → Option (List Char)

/-- The stencils by index. -/
abbrev Stencils := SortedMap Nat Stencil

/-- `transfers[idx][field] = value`. -/
def Stencils.setField (transfers : Stencils) (idx : Nat) (field value : List Char) : Stencils :=
  transfers.set idx
    (Function.update ((transfers.find? idx).getD fun _ => none) field (some value))

/-- One turn of the loop over `m_transfer`. -/
def collectEntry (transfers : Stencils) (kv : List Char × List Char) :
    Except Thrown Stencils :=
  -- `substr` throws when it would begin past the end
  if kv.1.length < 9 then .error .outOfRange
  else
    match cutAt '.' (kv.1.drop 9) with
    | none => .ok transfers
    | some (text, field) => do
        let idx ← stoul text
        -- the index is narrowed to 32 bits
        .ok (transfers.setField (idx % 2 ^ 32) field kv.2)

/-- Step 4 of `Compile`, up to the check that there is a stencil. -/
def collect (cfg : ProtocolConfig) : Except Thrown Stencils :=
  cfg.transfer.entries.foldlM collectEntry .empty

/-! ## The loops -/

/-- A computation that has either not ended or given a value. -/
def Runs {α : Type} (x : Compiled α) : Prop := x = .error .starved ∨ ∃ a, x = .ok a

theorem Runs.bind {α β : Type} {x : Compiled α} {f : α → Compiled β} (first : Runs x)
    (rest : ∀ a, x = .ok a → Runs (f a)) : Runs (x >>= f) := by
  rcases first with rfl | ⟨a, rfl⟩
  · exact .inl rfl
  · exact rest a rfl

section ForRange

variable {α : Type} {body : UInt64 → Compiled (List α)} {f : UInt64 → List α} {hi v : UInt64}

theorem forRange_runs (runs : ∀ v, Runs (body v)) (fuel : Nat) : Runs (forRange body hi fuel v) := by
  induction fuel generalizing v with
  | zero => exact .inl rfl
  | succ fuel ih =>
      rw [forRange]
      split
      · exact (runs v).bind fun pushed _ => ih.bind fun rest _ => .inr ⟨_, rfl⟩
      · exact .inr ⟨_, rfl⟩

theorem forRange_starved (runs : ∀ v, Runs (body v)) (last : hi = 18446744073709551615)
    (fuel : Nat) : forRange body hi fuel v = .error .starved := by
  induction fuel generalizing v with
  | zero => rfl
  | succ fuel ih =>
      have turn : v ≤ hi := by
        have := v.toNat_lt
        rw [UInt64.le_iff_toNat_le, last]
        show v.toNat ≤ 18446744073709551615
        omega
      rw [forRange, if_pos turn]
      rcases runs v with starved | ⟨pushed, ok⟩
      · rw [starved]
        rfl
      · rw [ok]
        show (forRange body hi fuel (v + 1) >>= fun rest => .ok (pushed ++ rest)) = _
        rw [ih]
        rfl

theorem forRange_stuck (turn : v ≤ hi) (starved : body v = .error .starved) (fuel : Nat) :
    forRange body hi fuel v = .error .starved := by
  cases fuel with
  | zero => rfl
  | succ fuel =>
      rw [forRange, if_pos turn, starved]
      rfl

/-- `n` numbers from `v` on. -/
def upFrom : Nat → UInt64 → List UInt64
  | 0, _ => []
  | n + 1, v => v :: upFrom n (v + 1)

/-- The numbers of a range. -/
def rangeOf (lo hi : UInt64) : List UInt64 := upFrom (hi.toNat + 1 - lo.toNat) lo

theorem toNat_succ (turn : v ≤ hi) (last : hi ≠ 18446744073709551615) :
    (v + 1).toNat = v.toNat + 1 := by
  have below : v.toNat ≤ hi.toNat := UInt64.le_iff_toNat_le.mp turn
  have bound := hi.toNat_lt
  have lower : hi.toNat ≠ 18446744073709551615 := by
    intro top
    apply last
    rw [← UInt64.toNat_inj, top]
    rfl
  rw [UInt64.toNat_add]
  show (v.toNat + 1) % 2 ^ 64 = _
  omega

theorem forRange_within (body_within : ∀ v, Within (body v) (.ok (f v)))
    (last : hi ≠ 18446744073709551615) (fuel : Nat) :
    Within (forRange body hi fuel v) (.ok ((rangeOf v hi).flatMap f)) := by
  induction fuel generalizing v with
  | zero => exact .starved _
  | succ fuel ih =>
      rw [forRange]
      split
      · rename_i turn
        have below : v.toNat ≤ hi.toNat := UInt64.le_iff_toNat_le.mp turn
        have split : (rangeOf v hi).flatMap f = f v ++ (rangeOf (v + 1) hi).flatMap f := by
          rw [rangeOf, rangeOf, toNat_succ turn last,
            show hi.toNat + 1 - v.toNat = hi.toNat + 1 - (v.toNat + 1) + 1 by omega]
          rfl
        rw [split]
        exact (body_within v).bind (g := fun pushed =>
          .ok (pushed ++ (rangeOf (v + 1) hi).flatMap f)) fun pushed => by
            rcases ih (v := v + 1) with starved | ok
            · rw [starved]
              exact .starved _
            · rw [ok]
              exact .refl _
      · rename_i ends
        have above : hi.toNat < v.toNat := by
          rw [UInt64.le_iff_toNat_le] at ends
          omega
        rw [rangeOf, show hi.toNat + 1 - v.toNat = 0 by omega]
        exact .refl _

theorem forRange_fed (fed : ∀ v, body v ≠ .error .starved) (last : hi ≠ 18446744073709551615)
    {fuel : Nat} (turns : hi.toNat + 1 - v.toNat < fuel) :
    forRange body hi fuel v ≠ .error .starved := by
  induction fuel generalizing v with
  | zero => exact absurd turns (Nat.not_lt_zero _)
  | succ fuel ih =>
      rw [forRange]
      split
      · rename_i turn
        have below : v.toNat ≤ hi.toNat := UInt64.le_iff_toNat_le.mp turn
        refine bind_fed (fed v) fun pushed _ => bind_fed (ih ?_) fun rest _ => ?_
        · rw [toNat_succ turn last]
          omega
        · intro starved
          cases starved
      · intro starved
        cases starved

end ForRange

/-- The points of the replicate ranges, in row-major order. -/
def points : List ResolvedDim → Vars → List Vars
  | [], binding => [binding]
  | d :: rest, binding =>
      (rangeOf d.lo d.hi).flatMap fun v => points rest (Function.update binding d.var (some v))

/-- A dimension that the loops come to the end of. -/
def ResolvedDim.Ends (d : ResolvedDim) : Prop := d.hi ≠ 18446744073709551615

instance (d : ResolvedDim) : Decidable d.Ends := inferInstanceAs (Decidable (¬ _))

variable {dims : List ResolvedDim} {binding : Vars}

theorem expand_runs (fuel : Nat) (dims : List ResolvedDim) (binding : Vars) :
    Runs (expand fuel dims binding) := by
  induction dims generalizing binding with
  | nil => exact .inr ⟨_, rfl⟩
  | cons d rest ih => exact forRange_runs (fun v => ih _) fuel

theorem expand_within (ends : ∀ d ∈ dims, d.Ends) (fuel : Nat) (binding : Vars) :
    Within (expand fuel dims binding) (.ok (points dims binding)) := by
  induction dims generalizing binding with
  | nil => exact .refl _
  | cons d rest ih =>
      exact forRange_within (fun v => ih (fun d hd => ends d (List.mem_cons_of_mem _ hd)) _)
        (ends d List.mem_cons_self) fuel

theorem expand_ends (ends : ∀ d ∈ dims, d.Ends) (binding : Vars) :
    expand (2 ^ 64 + 1) dims binding = .ok (points dims binding) := by
  apply (expand_within ends _ binding).eq
  induction dims generalizing binding with
  | nil =>
      intro starved
      cases starved
  | cons d rest ih =>
      have bound := d.hi.toNat_lt
      exact forRange_fed (fun v => ih (fun d hd => ends d (List.mem_cons_of_mem _ hd)) _)
        (ends d List.mem_cons_self) (by omega)

theorem expand_starved (ranges : ∀ d ∈ dims, d.lo ≤ d.hi) (endless : ∃ d ∈ dims, ¬ d.Ends)
    (fuel : Nat) (binding : Vars) : expand fuel dims binding = .error .starved := by
  induction dims generalizing binding with
  | nil =>
      obtain ⟨d, hd, -⟩ := endless
      cases hd
  | cons d rest ih =>
      by_cases here : d.Ends
      · obtain ⟨e, he, last⟩ := endless
        rcases List.mem_cons.mp he with rfl | later
        · exact absurd here last
        · exact forRange_stuck (ranges d List.mem_cons_self)
            (ih (fun d hd => ranges d (List.mem_cons_of_mem _ hd)) ⟨e, later, last⟩ _) fuel
      · exact forRange_starved (fun v => expand_runs fuel rest _) (not_not.mp here) fuel

theorem rangeOf_ne_nil {lo hi : UInt64} (h : lo ≤ hi) : rangeOf lo hi ≠ [] := by
  rw [UInt64.le_iff_toNat_le] at h
  rw [rangeOf, show hi.toNat + 1 - lo.toNat = hi.toNat - lo.toNat + 1 by omega]
  exact List.cons_ne_nil _ _

theorem points_ne_nil (ranges : ∀ d ∈ dims, d.lo ≤ d.hi) (binding : Vars) :
    points dims binding ≠ [] := by
  induction dims generalizing binding with
  | nil => exact List.cons_ne_nil _ _
  | cons d rest ih =>
      rw [points, Ne, List.flatMap_eq_nil_iff]
      intro none
      obtain ⟨v, hv⟩ := List.exists_mem_of_ne_nil _ (rangeOf_ne_nil (ranges d List.mem_cons_self))
      exact ih (fun d hd => ranges d (List.mem_cons_of_mem _ hd)) _ (none v hv)

theorem instances_within (ranges : ∀ d ∈ dims, d.lo ≤ d.hi) (ends : ∀ d ∈ dims, d.Ends)
    (fuel : Nat) : Within (instances fuel dims) (.ok (points dims fun _ => none)) := by
  rcases expand_within ends fuel fun _ => none with starved | ok
  · rw [instances, starved]
    exact .starved _
  · rw [instances, ok]
    show Within (.ok (if points dims _ = [] then _ else points dims _)) _
    rw [if_neg (points_ne_nil ranges _)]
    exact .refl _

theorem instances_ends (ranges : ∀ d ∈ dims, d.lo ≤ d.hi) (ends : ∀ d ∈ dims, d.Ends) :
    instances (2 ^ 64 + 1) dims = .ok (points dims fun _ => none) := by
  apply (instances_within ranges ends _).eq
  rw [instances, expand_ends ends]
  intro starved
  cases starved

theorem instances_starved (ranges : ∀ d ∈ dims, d.lo ≤ d.hi) (endless : ∃ d ∈ dims, ¬ d.Ends)
    (fuel : Nat) : instances fuel dims = .error .starved := by
  rw [instances, expand_starved ranges endless]
  rfl

/-! ## Errors -/

/-- A value, or `PROTOCOL_TRANSACTION_INVALID_NODE` with an error. -/
def Answers {α : Type} (x : Compiled α) : Prop := (∃ a, x = .ok a) ∨ ∃ m, x = reject m

theorem Answers.bind {α β : Type} {x : Compiled α} {f : α → Compiled β} (first : Answers x)
    (rest : ∀ a, x = .ok a → Answers (f a)) : Answers (x >>= f) := by
  rcases first with ⟨a, rfl⟩ | ⟨m, rfl⟩
  · exact rest a rfl
  · exact .inr ⟨m, rfl⟩

theorem Answers.ok {α : Type} (a : α) : Answers (.ok a : Compiled α) := .inl ⟨a, rfl⟩

theorem Answers.rejected {α : Type} (m : String) : Answers (reject m : Compiled α) := .inr ⟨m, rfl⟩

theorem evalOr_eq_ok {vars : Vars} {expr : List Char} {describe : String → String} {v : UInt64} :
    evalOr vars expr describe = .ok v ↔ eval vars expr = .ok v := by
  cases value : eval vars expr with
  | ok w =>
      rw [evalOr, value]
      constructor
      · intro ok
        cases ok
        rfl
      · intro ok
        cases ok
        rfl
  | error halt =>
      rw [evalOr, value]
      constructor
      · intro ok
        cases halt <;> cases ok
      · intro ok
        cases ok

theorem evalOr_answers (vars : Vars) (expr : List Char) (describe : String → String) :
    Answers (evalOr vars expr describe) := by
  rw [evalOr]
  split
  · exact .ok _
  · exact .rejected _
  · rename_i starved
    exact absurd starved (eval_fed vars expr)

theorem bindParams_answers (params : List (String × List Char)) (vars : Vars) :
    Answers (bindParams params vars) := by
  induction params generalizing vars with
  | nil => exact .ok _
  | cons p rest ih => exact (evalOr_answers _ _ _).bind fun v _ => ih _

theorem resolveDim_answers (vars : Vars) (d : Dim) : Answers (resolveDim vars d) := by
  refine (evalOr_answers _ _ _).bind fun lo _ => (evalOr_answers _ _ _).bind fun hi _ => ?_
  split
  · exact .rejected _
  · exact .ok _

theorem resolveDims_answers (vars : Vars) (ds : List Dim) : Answers (resolveDims vars ds) := by
  induction ds with
  | nil => exact .ok _
  | cons d rest ih =>
      exact (resolveDim_answers vars d).bind fun r _ => ih.bind fun rs _ => .ok _

theorem resolveDims_ranges {vars : Vars} {ds : List Dim} (ok : resolveDims vars ds = .ok dims) :
    ∀ d ∈ dims, d.lo ≤ d.hi := by
  induction ds generalizing dims with
  | nil =>
      cases ok
      intro d hd
      cases hd
  | cons d rest ih =>
      obtain ⟨r, first, ok⟩ := bind_eq_ok.mp ok
      obtain ⟨rs, later, ok⟩ := bind_eq_ok.mp ok
      cases ok
      obtain ⟨lo, -, first⟩ := bind_eq_ok.mp first
      obtain ⟨hi, -, first⟩ := bind_eq_ok.mp first
      split at first
      · cases first
      · rename_i range
        cases first
        intro d hd
        rcases List.mem_cons.mp hd with rfl | hd
        · exact UInt64.not_lt.mp range
        · exact ih later d hd

/-! ## Indices -/

/-- The text of the index of a transfer key, if the key names a field. -/
def indexText (key : List Char) : Option (List Char) :=
  (cutAt '.' (key.drop 9)).map Prod.fst

/-- The indices a configuration writes. -/
def ProtocolConfig.indices (cfg : ProtocolConfig) : List (List Char) :=
  cfg.transfer.entries.filterMap fun kv => indexText kv.1

/-- A decimal number that fits the index type. -/
def IsIndex (text : List Char) : Prop :=
  text ≠ [] ∧ text.all Char.isDigit = true ∧ decimal text < 2 ^ 32

instance (text : List Char) : Decidable (IsIndex text) := inferInstanceAs (Decidable (_ ∧ _ ∧ _))

/-- The index a text stands for: `static_cast<uint32_t>(std::stoul(text))`. -/
def indexOf (text : List Char) : Except Thrown Nat := do
  let n ← stoul text
  .ok (n % 2 ^ 32)

theorem digit_plain {c : Char} (digit : c.isDigit = true) :
    isspace c = false ∧ c ≠ '-' ∧ c ≠ '+' := by
  have range : 48 ≤ c.toNat ∧ c.toNat ≤ 57 := by
    simp only [Char.isDigit, Bool.and_eq_true, decide_eq_true_eq] at digit
    exact ⟨by simpa using UInt32.le_iff_toNat_le.mp digit.1,
      by simpa using UInt32.le_iff_toNat_le.mp digit.2⟩
  refine ⟨?_, ?_, ?_⟩
  · by_contra blank
    simp only [isspace, Bool.not_eq_false, Bool.or_eq_true, beq_iff_eq, Bool.and_eq_true,
      decide_eq_true_eq] at blank
    rcases blank with rfl | blank
    · revert range
      decide
    · omega
  · rintro rfl
    revert range
    decide
  · rintro rfl
    revert range
    decide

theorem IsIndex.indexOf_eq {text : List Char} (h : IsIndex text) :
    indexOf text = .ok (decimal text) := by
  obtain ⟨some, all, fits⟩ := h
  have digits := List.all_eq_true.mp all
  cases text with
  | nil => exact absurd rfl some
  | cons c rest =>
      obtain ⟨blank, minus, plus⟩ := digit_plain (digits c List.mem_cons_self)
      have all : (c :: rest).takeWhile Char.isDigit = c :: rest := List.takeWhile_eq_self_iff.mpr digits
      have read : stoul (c :: rest) = .ok (decimal (c :: rest)) := by
        rw [stoul, List.dropWhile_cons_of_neg (by rw [blank]; exact Bool.false_ne_true)]
        simp only [List.head?_cons, Option.some.injEq, minus, plus, or_self, if_false, all,
          List.cons_ne_nil]
        rw [if_neg (by omega)]
      rw [indexOf, read]
      show Except.ok (decimal (c :: rest) % 2 ^ 32) = _
      rw [Nat.mod_eq_of_lt fits]

theorem length_of_prefix {key : List Char} (h : "transfer.".toList <+: key) : 9 ≤ key.length :=
  h.length_le

/-- The transfers are collected iff `std::stoul` reads every index. -/
theorem collect_ok_iff {cfg : ProtocolConfig} (keys : cfg.Transfers) :
    (∃ transfers, collect cfg = .ok transfers) ↔
      ∀ text ∈ cfg.indices, ∃ n, stoul text = .ok n := by
  have long : ∀ kv ∈ cfg.transfer.entries, 9 ≤ kv.1.length := fun kv hkv =>
    length_of_prefix (keys kv.1 (List.mem_map_of_mem hkv))
  rw [collect, ProtocolConfig.indices]
  generalize (SortedMap.empty : Stencils) = start
  generalize cfg.transfer.entries = entries at long
  induction entries generalizing start with
  | nil =>
      simp only [List.filterMap_nil, List.not_mem_nil, false_imp_iff, implies_true, iff_true]
      exact ⟨start, rfl⟩
  | cons kv rest ih =>
      have later := fun start => ih start fun kv hkv => long kv (List.mem_cons_of_mem _ hkv)
      have short : ¬ kv.1.length < 9 := Nat.not_lt.mpr (long kv List.mem_cons_self)
      rw [List.foldlM_cons]
      cases cut : cutAt '.' (kv.1.drop 9) with
      | none =>
          have none : indexText kv.1 = none := by rw [indexText, cut]; rfl
          have step : collectEntry start kv = .ok start := by
            rw [collectEntry, if_neg short, cut]
          rw [List.filterMap_cons_none (f := fun kv : List Char × List Char => indexText kv.1) none, step]
          exact later start
      | some pair =>
          obtain ⟨text, field⟩ := pair
          have some : indexText kv.1 = some text := by rw [indexText, cut]; rfl
          have step : collectEntry start kv =
              stoul text >>= fun idx =>
                .ok (Stencils.setField start (idx % 2 ^ 32) field kv.2) := by
            rw [collectEntry, if_neg short, cut]
          rw [List.filterMap_cons_some (f := fun kv : List Char × List Char => indexText kv.1) some, step]
          cases read : stoul text with
          | error e =>
              constructor
              · rintro ⟨transfers, ok⟩
                cases ok
              · intro all
                obtain ⟨n, ok⟩ := all text List.mem_cons_self
                rw [read] at ok
                cases ok
          | ok idx =>
              refine Iff.trans (later (Stencils.setField start (idx % 2 ^ 32) field kv.2)) ?_
              constructor
              · intro all t ht
                rcases List.mem_cons.mp ht with rfl | ht
                · exact ⟨idx, read⟩
                · exact all t ht
              · intro all t ht
                exact all t (List.mem_cons_of_mem _ ht)

end ProtoBridge.Config
