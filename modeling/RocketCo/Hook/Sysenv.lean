/-
  RocketCo.Hook.Sysenv — the environment variables that coroutines share.

  `InitEnv` registers names with values in `co_sysenv`; from then on the hooked `setenv`, `unsetenv` and
  `getenv` serve the registered names from this map and pass all others on to the system.  The map has no
  entry that says "unset": `unsetenv` stores the empty string, `getenv` returns whatever is stored, and
  `setenv` takes the empty string for an unset name.

    • `Posix` — what an environment is: a value or nothing for each name; the names for which POSIX asks
      for EINVAL (the empty one, and those with a `=`) have a value like all others here,
    • `environment_iff` — the runs in which the wrappers behave like one are those in which no unset name
      is read and no name with the empty value is set without `overwrite`.
-/
import Mathlib.Data.List.AList
import RocketCo.Lib.Run

namespace RocketCo.Hook

open RocketCo.Lib

/-! ## §1. The wrappers. -/

/-- The characters of a C string; `""` is `[]`. -/
abbrev Str := List Char

/-- `std::unordered_map<std::string, std::string>`. -/
abbrev EnvMap := AList fun _ : Str => Str

/-- The fields of a `Co_Entity` that the wrappers use; `Env` is set to `&co_sysenv` or null. -/
structure EnvEntity where
  IsHook : Bool
  Env : Bool

/-- `co_sysenv.env`, the coroutines, and the environment of the process. -/
structure SysenvState (Co P : Type*) where
  env : EnvMap
  entity : Co → EnvEntity
  process : P

/-- The system's own functions. -/
structure EnvSystem (P : Type*) where
  setenv : Str → Str → Int → P → Int × P
  unsetenv : Str → P → Int × P
  getenv : Str → P → Option Str × P

variable {Co P : Type*} [DecidableEq Co]

namespace SysenvState

/-- `InitEnv`. -/
def initEnv (s : SysenvState Co P) (para : List (Str × Str)) : SysenvState Co P :=
  if s.env.entries.length ≠ 0 then s
  else { s with env := para.foldl (fun env x => env.insert x.1 x.2) s.env }

/-- `GetCurrentCoIsHook`; without an environment of coroutines there is no current one. -/
def currentCoIsHook (s : SysenvState Co P) : Option Co → Bool
  | none => false
  | some co => (s.entity co).IsHook

/-- `if(!Co->Env) Co->Env = &co_sysenv`. -/
def share (s : SysenvState Co P) (co : Co) : SysenvState Co P :=
  if (s.entity co).Env then s
  else { s with entity := Function.update s.entity co { s.entity co with Env := true } }

/-- The way into the three wrappers: a name that is found in the map is served by `found`, which gets
its value; everything else goes to `system`. -/
def wrapped {R : Type*} (s : SysenvState Co P) (current : Option Co) (n : Str)
    (found : Str → R × EnvMap) (system : P → R × P) : R × SysenvState Co P :=
  let pass (s : SysenvState Co P) :=
    let r := system s.process
    (r.1, { s with process := r.2 })
  if s.currentCoIsHook current && decide (s.env.entries.length ≠ 0) then
    match current with
    | none => pass s
    | some co =>
        let s := s.share co
        match s.env.lookup n with
        | some value =>
            let r := found value
            (r.1, { s with env := r.2 })
        | none => pass s
  else pass s

/-- The hooked `setenv`. -/
def setenv (sys : EnvSystem P) (s : SysenvState Co P) (current : Option Co) (n value : Str)
    (overwrite : Int) : Int × SysenvState Co P :=
  s.wrapped current n
    (fun old => (0, if old = [] ∨ overwrite ≠ 0 then s.env.insert n value else s.env))
    (sys.setenv n value overwrite)

/-- The hooked `unsetenv`. -/
def unsetenv (sys : EnvSystem P) (s : SysenvState Co P) (current : Option Co) (n : Str) :
    Int × SysenvState Co P :=
  s.wrapped current n (fun _ => (0, s.env.insert n [])) (sys.unsetenv n)

/-- The hooked `getenv`; the string the returned pointer points to, if it is not null. -/
def getenv (sys : EnvSystem P) (s : SysenvState Co P) (current : Option Co) (n : Str) :
    Option Str × SysenvState Co P :=
  s.wrapped current n (fun value => (some value, s.env)) (sys.getenv n)

end SysenvState

/-! ## §2. What an environment is. -/

/-- A value or nothing for each name. -/
abbrev Posix := Str → Option Str

namespace Posix

/-- `setenv` of a name that POSIX does not refuse. -/
def setenv (p : Posix) (n value : Str) (overwrite : Int) : Posix :=
  if overwrite ≠ 0 ∨ p n = none then Function.update p n (some value) else p

def unsetenv (p : Posix) (n : Str) : Posix := Function.update p n none

/-- As the environment of a process. -/
def system : EnvSystem Posix where
  setenv n value overwrite p := (0, p.setenv n value overwrite)
  unsetenv n p := (0, p.unsetenv n)
  getenv n p := (p n, p)

end Posix

/-! ## §3. Coroutines and their calls. -/

inductive EnvCall where
  | setenv (n value : Str) (overwrite : Int)
  | unsetenv (n : Str)
  | getenv (n : Str)

inductive EnvResult where
  | code (r : Int)
  | string (value : Option Str)

namespace EnvCall

def name : EnvCall → Str
  | .setenv n _ _ | .unsetenv n | .getenv n => n

/-- The call, as the library answers it ... -/
def hooked (sys : EnvSystem P) (s : SysenvState Co P) (co : Co) :
    EnvCall → EnvResult × SysenvState Co P
  | .setenv n value overwrite =>
      let r := s.setenv sys (some co) n value overwrite
      (.code r.1, r.2)
  | .unsetenv n =>
      let r := s.unsetenv sys (some co) n
      (.code r.1, r.2)
  | .getenv n =>
      let r := s.getenv sys (some co) n
      (.string r.1, r.2)

/-- ... as the system does ... -/
def system (sys : EnvSystem P) (p : P) : EnvCall → EnvResult × P
  | .setenv n value overwrite =>
      let r := sys.setenv n value overwrite p
      (.code r.1, r.2)
  | .unsetenv n =>
      let r := sys.unsetenv n p
      (.code r.1, r.2)
  | .getenv n =>
      let r := sys.getenv n p
      (.string r.1, r.2)

/-- ... and as an environment should.  A name is never refused: `setenv` and `unsetenv` of POSIX answer
EINVAL for an empty name or one with a `=`, and this is outside the laws asked for here. -/
def posix (p : Posix) : EnvCall → EnvResult × Posix
  | .setenv n value overwrite => (.code 0, p.setenv n value overwrite)
  | .unsetenv n => (.code 0, p.unsetenv n)
  | .getenv n => (.string (p n), p)

end EnvCall

/-- The library, and the environment it stands for (a ghost). -/
structure Environment (Co P : Type*) where
  sys : SysenvState Co P
  posix : Posix

namespace Environment

/-- Behind the first `InitEnv`.  Whether a name registered with the empty string counts as set is left
open. -/
def start (entity : Co → EnvEntity) (process : P) (emptyIsSet : Bool) (para : List (Str × Str)) :
    Environment Co P :=
  let s := SysenvState.initEnv (⟨∅, entity, process⟩ : SysenvState Co P) para
  { sys := s
    posix := fun n =>
      match s.env.lookup n with
      | some [] => if emptyIsSet then some [] else none
      | value => value }

/-- A call of a hooked coroutine.  The environment is that of the registered names. -/
def Step (sys : EnvSystem P) (s : Environment Co P) (a : Co × EnvCall) (t : Environment Co P) : Prop :=
  (s.sys.entity a.1).IsHook = true ∧ t =
    { sys := (a.2.hooked sys s.sys a.1).2
      posix := if a.2.name ∈ s.sys.env then (a.2.posix s.posix).2 else s.posix }

/-- The call is answered as by an environment, and all names that are set have their values. -/
structure Served (sys : EnvSystem P) (s : Environment Co P) (co : Co) (c : EnvCall) : Prop where
  result : (c.hooked sys s.sys co).1 = (c.posix s.posix).1
  values : ∀ n ∈ s.sys.env, ∀ value, (c.posix s.posix).2 n = some value →
    (c.hooked sys s.sys co).2.env.lookup n = some value
  names : ∀ n, n ∈ (c.hooked sys s.sys co).2.env ↔ n ∈ s.sys.env
  process : (c.hooked sys s.sys co).2.process = s.sys.process

/-- The call only reaches the environment of the process. -/
structure Passed (sys : EnvSystem P) (s : Environment Co P) (co : Co) (c : EnvCall) : Prop where
  result : (c.hooked sys s.sys co).1 = (c.system sys s.sys.process).1
  process : (c.hooked sys s.sys co).2.process = (c.system sys s.sys.process).2
  env : (c.hooked sys s.sys co).2.env = s.sys.env

/-- **What is asked of a call.** -/
def Behaves (sys : EnvSystem P) (s : Environment Co P) (a : Co × EnvCall) : Prop :=
  if a.2.name ∈ s.sys.env then s.Served sys a.1 a.2 else s.Passed sys a.1 a.2

/-- **When it does**: of the registered names, no unset one is read, and one with the empty value is set
without `overwrite` to the empty string only. -/
def Plain (s : Environment Co P) (a : Co × EnvCall) : Prop :=
  a.2.name ∈ s.sys.env →
    match a.2 with
    | .setenv n value overwrite => overwrite = 0 → s.posix n = some [] → value = []
    | .unsetenv _ => True
    | .getenv n => s.posix n ≠ none

/-- **What ties the map to the environment**: it has the values of the registered names that are set, and
the empty string for the others. -/
def Tied (s : Environment Co P) : Prop :=
  ∀ n value, s.sys.env.lookup n = some value → s.posix n = some value ∨ s.posix n = none ∧ value = []

end Environment

/-! ## §4. What a call does. -/

namespace SysenvState

variable {R : Type*} {s : SysenvState Co P} {co : Co} {n value : Str}

omit [DecidableEq Co] in
theorem size_ne_zero (h : s.env.lookup n = some value) : s.env.entries.length ≠ 0 := by
  have hmem : n ∈ s.env := AList.lookup_isSome.mp (by simp [h])
  intro hlen
  have hkeys : s.env.keys = [] := by
    rw [AList.keys, List.length_eq_zero_iff.mp hlen]
    rfl
  rw [AList.mem_keys, hkeys] at hmem
  exact absurd hmem List.not_mem_nil

@[simp] theorem share_env : (s.share co).env = s.env := by
  unfold share
  split <;> rfl

@[simp] theorem share_process : (s.share co).process = s.process := by
  unfold share
  split <;> rfl

/-- **A registered name** is served from the map. -/
theorem wrapped_registered {found : Str → R × EnvMap} {system : P → R × P}
    (hhook : (s.entity co).IsHook = true) (h : s.env.lookup n = some value) :
    (s.wrapped (some co) n found system).1 = (found value).1 ∧
      (s.wrapped (some co) n found system).2.env = (found value).2 ∧
      (s.wrapped (some co) n found system).2.process = s.process := by
  have hguard : (s.currentCoIsHook (some co) && decide (s.env.entries.length ≠ 0)) = true := by
    simp [currentCoIsHook, hhook, size_ne_zero h]
  have hshared : (s.share co).env.lookup n = some value := by rw [share_env, h]
  simp only [wrapped, hguard, if_true, hshared]
  exact ⟨trivial, trivial, share_process⟩

/-- **Any other name** is left to the system. -/
theorem wrapped_other {current : Option Co} {found : Str → R × EnvMap} {system : P → R × P}
    (h : s.env.lookup n = none) :
    (s.wrapped current n found system).1 = (system s.process).1 ∧
      (s.wrapped current n found system).2.env = s.env ∧
      (s.wrapped current n found system).2.process = (system s.process).2 := by
  unfold wrapped
  split
  · cases current with
    | none => exact ⟨rfl, rfl, rfl⟩
    | some co => simp [h]
  · exact ⟨rfl, rfl, rfl⟩

/-- The form of the result does not matter to the way in. -/
theorem map_wrapped {R' : Type*} (f : R → R') {current : Option Co} {found : Str → R × EnvMap}
    {system : P → R × P} :
    (f (s.wrapped current n found system).1, (s.wrapped current n found system).2) =
      s.wrapped current n (fun old => (f (found old).1, (found old).2))
        (fun p => (f (system p).1, (system p).2)) := by
  unfold wrapped
  split
  · cases current with
    | none => rfl
    | some co =>
        cases h : s.env.lookup n with
        | none => simp [h]
        | some old => simp [h]
  · rfl

end SysenvState

namespace EnvCall

variable {sys : EnvSystem P} {s : SysenvState Co P} {co : Co} {old : Str}

/-- What an environment answers to a call, read off the map. -/
def answer (old : Str) : EnvCall → EnvResult
  | .setenv .. | .unsetenv _ => .code 0
  | .getenv _ => .string (some old)

/-- The map behind a call on a registered name. -/
def stored (env : EnvMap) (old : Str) : EnvCall → EnvMap
  | .setenv n value overwrite => if old = [] ∨ overwrite ≠ 0 then env.insert n value else env
  | .unsetenv n => env.insert n []
  | .getenv _ => env

/-- **The three wrappers are one.** -/
theorem hooked_eq (c : EnvCall) :
    c.hooked sys s co =
      s.wrapped (some co) c.name (fun old => (c.answer old, c.stored s.env old)) (c.system sys) := by
  cases c with
  | setenv n value overwrite => exact SysenvState.map_wrapped EnvResult.code
  | unsetenv n => exact SysenvState.map_wrapped EnvResult.code
  | getenv n => exact SysenvState.map_wrapped EnvResult.string

/-- A registered name is served from the map, and the system is not asked. -/
theorem hooked_registered (sys : EnvSystem P) {c : EnvCall} (hhook : (s.entity co).IsHook = true)
    (h : s.env.lookup c.name = some old) :
    (c.hooked sys s co).1 = c.answer old ∧ (c.hooked sys s co).2.env = c.stored s.env old ∧
      (c.hooked sys s co).2.process = s.process := by
  rw [hooked_eq]
  exact SysenvState.wrapped_registered hhook h

/-- Any other name goes to the system, and the map stays. -/
theorem hooked_other (sys : EnvSystem P) (co : Co) {c : EnvCall} (h : s.env.lookup c.name = none) :
    (c.hooked sys s co).1 = (c.system sys s.process).1 ∧ (c.hooked sys s co).2.env = s.env ∧
      (c.hooked sys s co).2.process = (c.system sys s.process).2 := by
  rw [hooked_eq]
  exact SysenvState.wrapped_other h

/-- No name is registered or forgotten. -/
theorem mem_stored {env : EnvMap} {c : EnvCall} (h : c.name ∈ env) (m : Str) :
    m ∈ c.stored env old ↔ m ∈ env := by
  have hinsert : ∀ value, m ∈ env.insert c.name value ↔ m ∈ env := by
    intro value
    rw [AList.mem_insert]
    constructor
    · intro hor
      rcases hor with rfl | hm
      · exact h
      · exact hm
    · exact Or.inr
  cases c with
  | setenv n value overwrite =>
      simp only [stored]
      split
      · exact hinsert value
      · rfl
  | unsetenv n => exact hinsert []
  | getenv n => rfl

/-- A call leaves the values of all other names. -/
theorem lookup_stored_ne {env : EnvMap} {c : EnvCall} {m : Str} (hm : m ≠ c.name) :
    (c.stored env old).lookup m = env.lookup m := by
  cases c with
  | setenv n value overwrite =>
      simp only [stored]
      split
      · exact AList.lookup_insert_ne hm
      · rfl
  | unsetenv n => exact AList.lookup_insert_ne hm
  | getenv n => rfl

/-- A call is about its own name only. -/
theorem posix_ne {p : Posix} {c : EnvCall} {m : Str} (hm : m ≠ c.name) : (c.posix p).2 m = p m := by
  cases c with
  | setenv n value overwrite =>
      simp only [posix, Posix.setenv]
      split
      · exact Function.update_of_ne hm _ _
      · rfl
  | unsetenv n => exact Function.update_of_ne hm _ _
  | getenv n => rfl

end EnvCall

/-! ## §5. The wrappers as an environment. -/

namespace Environment

variable {sys : EnvSystem P} {s t : Environment Co P} {co : Co} {c : EnvCall}

section Ties

omit [DecidableEq Co]

/-- A name that is set has its value in the map. -/
theorem Tied.lookup {n value : Str} (hs : s.Tied) (hn : n ∈ s.sys.env) (h : s.posix n = some value) :
    s.sys.env.lookup n = some value := by
  obtain ⟨old, hold⟩ := Option.isSome_iff_exists.mp (AList.lookup_isSome.mpr hn)
  rcases hs n old hold with hset | ⟨hunset, _⟩
  · rw [hold, ← hset, h]
  · rw [h] at hunset
    contradiction

theorem start_tied (entity : Co → EnvEntity) (process : P) (emptyIsSet : Bool)
    (para : List (Str × Str)) : (start entity process emptyIsSet para).Tied := by
  intro n value h
  simp only [start] at h ⊢
  rw [h]
  cases value with
  | nil => cases emptyIsSet <;> simp
  | cons x xs => simp

/-- **The answer** of a call on a registered name is that of the environment, unless an unset name is
read. -/
theorem Tied.answer_iff {old : Str} (hs : s.Tied) (h : s.sys.env.lookup c.name = some old) :
    c.answer old = (c.posix s.posix).1 ↔ ∀ n, c = .getenv n → s.posix n ≠ none := by
  cases c with
  | setenv n value overwrite => simp [EnvCall.answer, EnvCall.posix]
  | unsetenv n => simp [EnvCall.answer, EnvCall.posix]
  | getenv n =>
      rcases hs n old h with hset | ⟨hunset, _⟩
      · simp [EnvCall.answer, EnvCall.posix, hset]
      · simp [EnvCall.answer, EnvCall.posix, hunset]

/-- **The value** of the name stays that of the environment, unless the empty value is replaced without
`overwrite`. -/
theorem Tied.stored_iff {old : Str} (hs : s.Tied) (h : s.sys.env.lookup c.name = some old) :
    (∀ value, (c.posix s.posix).2 c.name = some value →
        (c.stored s.sys.env old).lookup c.name = some value) ↔
      ∀ n value, c = .setenv n value 0 → s.posix n = some [] → value = [] := by
  cases c with
  | setenv n value overwrite =>
      simp only [EnvCall.name] at h ⊢
      by_cases how : overwrite = 0
      · subst how
        rcases hs n old h with hset | ⟨hunset, hempty⟩
        · by_cases hold : old = []
          · subst hold
            simp [EnvCall.posix, EnvCall.stored, Posix.setenv, hset]
          · simp [EnvCall.posix, EnvCall.stored, Posix.setenv, hset, hold, h]
        · simp [EnvCall.posix, EnvCall.stored, Posix.setenv, hunset, hempty]
      · simp [EnvCall.posix, EnvCall.stored, Posix.setenv, how]
  | unsetenv n => simp [EnvCall.posix, Posix.unsetenv, EnvCall.name]
  | getenv n =>
      simp only [EnvCall.posix, EnvCall.stored, EnvCall.name] at h ⊢
      rcases hs n old h with hset | ⟨hunset, _⟩
      · simp [hset, h]
      · simp [hunset]

/-- An unset name has the empty string. -/
theorem Tied.stored_of_unset {old value : Str} (hs : s.Tied) (h : s.sys.env.lookup c.name = some old)
    (hunset : (c.posix s.posix).2 c.name = none)
    (hvalue : (c.stored s.sys.env old).lookup c.name = some value) : value = [] := by
  cases c with
  | setenv n new overwrite =>
      simp only [EnvCall.posix, EnvCall.name, Posix.setenv] at hunset
      split at hunset
      case isTrue => simp at hunset
      case isFalse hguard => exact absurd (Or.inr hunset) hguard
  | unsetenv n =>
      simp only [EnvCall.stored, EnvCall.name, AList.lookup_insert] at hvalue
      exact (Option.some.inj hvalue).symm
  | getenv n =>
      simp only [EnvCall.stored, EnvCall.posix, EnvCall.name] at hvalue hunset
      rcases hs n value hvalue with hset | ⟨-, hempty⟩
      · rw [hset] at hunset
        contradiction
      · exact hempty

theorem plain_iff (a : Co × EnvCall) (h : a.2.name ∈ s.sys.env) :
    s.Plain a ↔ (∀ n, a.2 = .getenv n → s.posix n ≠ none) ∧
      ∀ n value, a.2 = .setenv n value 0 → s.posix n = some [] → value = [] := by
  obtain ⟨co, c⟩ := a
  cases c with
  | setenv n value overwrite =>
      constructor
      · intro hplain
        refine ⟨by simp, ?_⟩
        intro _ _ heq
        cases heq
        exact hplain h rfl
      · intro hpost _ heq
        obtain ⟨-, hset⟩ := hpost
        subst heq
        exact hset n value rfl
  | unsetenv n => simp [Plain]
  | getenv n =>
      constructor
      · intro hplain
        refine ⟨?_, by simp⟩
        intro _ heq
        cases heq
        exact hplain h
      · intro hpost _
        obtain ⟨hread, -⟩ := hpost
        exact hread n rfl

end Ties

/-- **A call is served** exactly if answer and value are right. -/
theorem Tied.served_iff {old : Str} (hs : s.Tied) (hhook : (s.sys.entity co).IsHook = true)
    (h : s.sys.env.lookup c.name = some old) :
    s.Served sys co c ↔ c.answer old = (c.posix s.posix).1 ∧
      ∀ value, (c.posix s.posix).2 c.name = some value →
        (c.stored s.sys.env old).lookup c.name = some value := by
  obtain ⟨hresult, henv, hprocess⟩ := EnvCall.hooked_registered sys hhook h
  have hmem : c.name ∈ s.sys.env := AList.lookup_isSome.mp (by simp [h])
  constructor
  · intro hpost
    obtain ⟨hanswer, hvalues, -, -⟩ := hpost
    refine ⟨hresult.symm.trans hanswer, ?_⟩
    intro value hset
    rw [← henv]
    exact hvalues _ hmem value hset
  · intro hpost
    obtain ⟨hanswer, hvalue⟩ := hpost
    refine ⟨hresult.trans hanswer, ?_, ?_, hprocess⟩
    · intro n hn value hset
      rw [henv]
      by_cases hname : n = c.name
      · subst hname
        exact hvalue value hset
      · rw [EnvCall.posix_ne hname] at hset
        rw [EnvCall.lookup_stored_ne hname]
        exact hs.lookup hn hset
    · intro n
      rw [henv]
      exact EnvCall.mem_stored hmem n

/-- Other names are passed on, whatever the call. -/
theorem passed_of_not_mem (h : c.name ∉ s.sys.env) : s.Passed sys co c := by
  obtain ⟨hresult, henv, hprocess⟩ :=
    EnvCall.hooked_other sys co (AList.lookup_eq_none.mpr h)
  exact ⟨hresult, hprocess, henv⟩

/-- **One call.** -/
theorem Tied.plain_iff_behaves {a : Co × EnvCall} (hs : s.Tied) (h : Step sys s a t) :
    s.Plain a ↔ s.Behaves sys a := by
  unfold Behaves
  split
  case isTrue hmem =>
    obtain ⟨old, hold⟩ := Option.isSome_iff_exists.mp (AList.lookup_isSome.mpr hmem)
    rw [plain_iff a hmem, hs.served_iff h.1 hold, hs.answer_iff hold, hs.stored_iff hold]
  case isFalse hmem => exact ⟨fun _ => passed_of_not_mem hmem, fun _ hmem' => absurd hmem' hmem⟩

/-- **The ties hold on** behind a call that meets the condition. -/
theorem Tied.step {a : Co × EnvCall} (hs : s.Tied) (h : Step sys s a t) (hplain : s.Plain a) :
    t.Tied := by
  obtain ⟨hhook, rfl⟩ := h
  intro m value hvalue
  by_cases hmem : a.2.name ∈ s.sys.env
  · obtain ⟨old, hold⟩ := Option.isSome_iff_exists.mp (AList.lookup_isSome.mpr hmem)
    have henv := (EnvCall.hooked_registered sys hhook hold).2.1
    simp only [if_pos hmem]
    rw [henv] at hvalue
    by_cases hname : m = a.2.name
    · subst hname
      cases hposix : (a.2.posix s.posix).2 a.2.name with
      | none => exact Or.inr ⟨rfl, hs.stored_of_unset hold hposix hvalue⟩
      | some set =>
          have hset := (hs.stored_iff hold).mpr ((plain_iff a hmem).mp hplain).2 set hposix
          rw [hvalue] at hset
          exact Or.inl hset.symm
    · rw [EnvCall.posix_ne hname]
      rw [EnvCall.lookup_stored_ne hname] at hvalue
      exact hs m value hvalue
  · have henv := (EnvCall.hooked_other sys a.1 (AList.lookup_eq_none.mpr hmem)).2.1
    simp only [if_neg hmem]
    rw [henv] at hvalue
    exact hs m value hvalue

/-- **The wrappers behave like one environment exactly in the runs that meet the condition**, whatever the
coroutines, the process and the list given to `InitEnv`. -/
theorem environment_iff (sys : EnvSystem P) (entity : Co → EnvEntity) (process : P)
    (emptyIsSet : Bool) (para : List (Str × Str)) (as : List (Co × EnvCall)) (t : Environment Co P) :
    Run (fun s a t => Step sys s a t ∧ s.Plain a) (start entity process emptyIsSet para) as t ↔
      Run (fun s a t => Step sys s a t ∧ s.Behaves sys a) (start entity process emptyIsSet para) as
        t :=
  Run.guarded_iff_keeping (I := Tied) (fun _ _ _ hs h hplain => hs.step h hplain)
    (fun _ _ _ hs h => hs.plain_iff_behaves h) (start_tied entity process emptyIsSet para)

/-- An unset name is read. -/
theorem not_environment : ∃ t : Environment Unit Posix,
    Run (Step Posix.system)
      (start (fun _ => ⟨true, false⟩) (fun _ => none) false [(['a'], ['x'])])
      [((), .unsetenv ['a'])] t ∧
      ¬ t.Behaves Posix.system ((), .getenv ['a']) := by
  refine ⟨_, .cons ⟨rfl, rfl⟩ (.nil _), ?_⟩
  intro h
  rw [Behaves, if_pos (by decide)] at h
  have hanswer : EnvResult.string (some []) = .string none := h.result
  simp at hanswer

end Environment

end RocketCo.Hook
