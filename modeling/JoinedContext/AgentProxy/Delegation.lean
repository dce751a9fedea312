import JoinedContext.Library.Assoc
import JoinedContext.Library.Machine
import Mathlib.Data.List.Basic

/-!
# The grants of runs

A run reads as the person who started it, with a grant of that person's session at the realm. The
calls that bind, refresh and end a grant hold no lock while they talk to the realm, so each of their
lock sections and each of the realm's answers is a step of its own.
-/

namespace JoinedContext.AgentProxy.Delegation

section Source

/-- A held grant: which one it is, the session the realm made it in, and the session as the realm's
answer named it. -/
structure Held where
  grant : ℕ
  realm : String
  session : Option String
deriving DecidableEq

/-- A call on its way, at the point it has reached. A grant is retired by the end of its run, or by the
bind of another, which is named. -/
inductive Call where
  /-- A bind has its exchanged grant. -/
  | exchanged (run : String) (held : Held)
  /-- A grant is out of the map. -/
  | retiring (run : String) (old : Held) (bound : Option ℕ)
  /-- No other grant was found to share its session. -/
  | revoking (run : String) (old : Held) (bound : Option ℕ)
  /-- A token call has found its run's grant. -/
  | found (run : String) (held : Held)
  /-- It has the grant's lock and has asked the realm. -/
  | refreshing (run : String) (held : Held)
  /-- The realm has refused. -/
  | refused (run : String) (held : Held)
deriving DecidableEq

/-- The grant a call has. -/
def Call.held : Call → Held
  | .exchanged _ g | .retiring _ g _ | .revoking _ g _ | .found _ g | .refreshing _ g
  | .refused _ g => g

/-- The grants of the runs, the calls on their way, the number of the next grant, and the sessions
whose last run has ended, if the realm was not asked to revoke them since. -/
structure State where
  held : List (String × Held) := []
  calls : List Call := []
  next : ℕ := 0
  owed : List String := []

inductive Op where
  /-- The realm exchanges a person's token for a grant of a session, which its answer may name. -/
  | exchange (run realm : String) (session : Option String)
  | insert (run : String) (held : Held)
  /-- A retired grant is compared with those still held. -/
  | compare (run : String) (old : Held) (bound : Option ℕ)
  | revoke (run : String) (old : Held) (bound : Option ℕ)
  /-- The proxy cannot read how it authenticates, and sends no revocation. -/
  | unsent (run : String) (old : Held) (bound : Option ℕ)
  | lookup (run : String)
  | lock (run : String) (held : Held)
  /-- A token call ends with a token or without one, but for a refusal. -/
  | settle (run : String) (held : Held)
  | refuse (run : String) (held : Held)
  | drop (run : String) (held : Held)
  | remove (run : String)

/-- Whether a grant of the session is held. -/
def holds (held : List (String × Held)) (realm : String) : Bool := held.any fun c => c.2.realm = realm

/-- The sessions owed a revocation once a grant has ended that left the map as it is. -/
def owedAfter (held : List (String × Held)) (old : Held) (owed : List String) : List String :=
  if holds held old.realm then owed else old.realm :: owed

namespace State

def replace (s : State) (call : Call) (calls : List Call) : State :=
  { s with calls := calls ++ s.calls.erase call }

/-- Puts a grant in the map; the one it replaces is retired. -/
def bind (s : State) (run : String) (g : Held) : State :=
  let held := Assoc.put run g s.held
  let owed := s.owed.filter (· ≠ g.realm)
  match s.held.lookup run with
  | some old => { s with
      held
      calls := .retiring run old (some g.grant) :: s.calls.erase (.exchanged run g)
      owed := owedAfter held old owed }
  | none => { s with held, calls := s.calls.erase (.exchanged run g), owed }

/-- Takes a run's grant out of the map, to be retired. -/
def finish (s : State) (run : String) : State :=
  match s.held.lookup run with
  | some old => { s with
      held := Assoc.without run s.held
      calls := .retiring run old none :: s.calls
      owed := owedAfter (Assoc.without run s.held) old s.owed }
  | none => s

/-- Whether a call has the lock of the grant. -/
def locked (s : State) (g : Held) : Bool := s.calls.any fun
  | .refreshing _ g' => g'.grant = g.grant
  | _ => false

/-- Whether a held grant shares the session the retired one was named with. -/
def shared (s : State) (old : Held) : Bool :=
  old.session.isSome && s.held.any fun c => c.2.session = old.session

def step (s : State) : Op → State
  | .exchange run realm session => { s with
      calls := .exchanged run ⟨s.next, realm, session⟩ :: s.calls
      next := s.next + 1 }
  | .insert run g => if .exchanged run g ∈ s.calls then s.bind run g else s
  | .compare run old bound =>
    if .retiring run old bound ∈ s.calls then
      s.replace (.retiring run old bound)
        (if s.shared old then [] else [.revoking run old bound])
    else s
  | .revoke run old bound =>
    if .revoking run old bound ∈ s.calls ∧ s.locked old = false then
      { s.replace (.revoking run old bound) [] with owed := s.owed.filter (· ≠ old.realm) }
    else s
  | .unsent run old bound => s.replace (.revoking run old bound) []
  | .lookup run =>
    match s.held.lookup run with
    | some g => { s with calls := .found run g :: s.calls }
    | none => s
  | .lock run g =>
    if .found run g ∈ s.calls ∧ s.locked g = false then
      s.replace (.found run g) [.refreshing run g]
    else s
  | .settle run g => s.replace (.refreshing run g) []
  | .refuse run g =>
    if .refreshing run g ∈ s.calls then s.replace (.refreshing run g) [.refused run g] else s
  | .drop run g =>
    if .refused run g ∈ s.calls then
      { s.replace (.refused run g) [] with held := Assoc.without run s.held }
    else s
  | .remove run => s.finish run

end State

end Source

section Property

/-- The run's bind has returned: no call that bound the grant is on its way. -/
def State.Bound (s : State) (run : String) (g : Held) : Prop :=
  s.held.lookup run = some g ∧ ∀ run' old,
    .retiring run' old (some g.grant) ∉ s.calls ∧ .revoking run' old (some g.grant) ∉ s.calls

/-- A revocation of the grant's session is sent. -/
def State.Revokes (s : State) (old : Held) : Op → Prop
  | .revoke run g bound => g = old ∧ .revoking run g bound ∈ s.calls ∧ s.locked g = false
  | _ => False

/-- The run is ended or its grant replaced, or the realm has refused a refresh of the very grant. -/
def LetsGo (run : String) (g : Held) : Op → Prop
  | .remove run' => run' = run
  | .insert run' _ => run' = run
  | .drop run' g' => run' = run ∧ g' = g
  | _ => False

/-- A grant is being retired that the realm made in the session. -/
def Call.Retires (realm : String) : Call → Prop
  | .retiring _ old _ | .revoking _ old _ => old.realm = realm
  | _ => False

/-- Grants live as long as their runs: no session is revoked that a bound run holds a grant of, a held
grant stays until it is let go, and a session whose last run has ended is revoked before that end
returns. -/
structure Lives (s : State) (op : Op) : Prop where
  revokes : ∀ old, s.Revokes old op → ∀ run g, s.Bound run g → g.realm ≠ old.realm
  stays : ∀ run g, s.held.lookup run = some g →
    (s.step op).held.lookup run = some g ∨ LetsGo run g op
  ends : ∀ realm ∈ (s.step op).owed, ∃ call ∈ (s.step op).calls, call.Retires realm

/-- The realm names the session of an exchanged grant, no bind puts a grant of a session in the map
between the comparison of another and its revocation, a refused refresh finds no other grant of its
run than the refused one, and no revocation goes unsent. -/
def State.Orderly (s : State) : Op → Prop
  | .exchange _ realm session => session = some realm
  | .insert _ g => ∀ run old bound, .revoking run old bound ∈ s.calls → old.realm ≠ g.realm
  | .drop run g => ∀ other, s.held.lookup run = some other → other = g
  | .unsent .. => False
  | _ => True

end Property

section Invariant

/-- Every grant is named by its session, none is held of a session about to be revoked, and a session
that is owed a revocation is held by nobody and being retired. -/
structure Sound (s : State) : Prop where
  held : ∀ c ∈ s.held, c.2.session = some c.2.realm
  calls : ∀ call ∈ s.calls, call.held.session = some call.held.realm
  alone : ∀ run old bound, .revoking run old bound ∈ s.calls → ∀ c ∈ s.held, c.2.realm ≠ old.realm
  owed : ∀ realm ∈ s.owed, (∀ c ∈ s.held, c.2.realm ≠ realm) ∧
    ∃ call ∈ s.calls, call.Retires realm

variable {s : State} {op : Op} {run realm : String} {g old : Held} {bound : Option ℕ} {call : Call}

theorem Sound.start : Sound {} where
  held := by simp
  calls := by simp
  alone := by simp
  owed := by simp

theorem holds_eq_false {held : List (String × Held)} :
    holds held realm = false ↔ ∀ c ∈ held, c.2.realm ≠ realm := by
  simp [holds]

theorem mem_calls_replace {calls : List Call} {c : Call} (h : c ∈ (s.replace call calls).calls) :
    c ∈ calls ∨ c ∈ s.calls :=
  (List.mem_append.1 h).imp_right List.mem_of_mem_erase

/-- A call that is replaced leaves the others, and one that retires nothing leaves all that do. -/
theorem exists_retires_replace {calls : List Call} (hcall : ∀ realm, ¬ call.Retires realm)
    (h : ∃ c ∈ s.calls, c.Retires realm) : ∃ c ∈ (s.replace call calls).calls, c.Retires realm := by
  obtain ⟨c, hc, hretires⟩ := h
  refine ⟨c, List.mem_append_right _ ((List.mem_erase_of_ne fun heq => ?_).2 hc), hretires⟩
  exact hcall realm (heq ▸ hretires)

/-- A token call's step changes neither the grants nor what is retired. -/
theorem Sound.replace_token {calls : List Call} (h : Sound s) (hcall : ∀ realm, ¬ call.Retires realm)
    (hcalls : ∀ c ∈ calls, c.held = call.held ∧ ∀ run old bound, c ≠ .revoking run old bound)
    (hmem : calls ≠ [] → call ∈ s.calls) : Sound (s.replace call calls) where
  held := h.held
  calls c hc := by
    rcases mem_calls_replace hc with hc | hc
    · rw [(hcalls c hc).1]
      exact h.calls call (hmem (List.ne_nil_of_mem hc))
    · exact h.calls c hc
  alone run old bound hc := by
    rcases mem_calls_replace hc with hc | hc
    · exact ((hcalls _ hc).2 run old bound rfl).elim
    · exact h.alone run old bound hc
  owed realm hrealm := ⟨(h.owed realm hrealm).1, exists_retires_replace hcall (h.owed realm hrealm).2⟩

theorem mem_without {c : String × Held} (h : c ∈ Assoc.without run s.held) : c ∈ s.held :=
  List.mem_of_mem_filter h

/-- What a grant that left the map is owed: nothing while its session is held. -/
theorem Sound.owedAfter {held : List (String × Held)} {calls : List Call} {owed : List String}
    (hretiring : .retiring run old bound ∈ calls)
    (howed : ∀ realm ∈ owed, (∀ c ∈ held, c.2.realm ≠ realm) ∧ ∃ call ∈ calls, call.Retires realm) :
    ∀ realm ∈ owedAfter held old owed, (∀ c ∈ held, c.2.realm ≠ realm) ∧
      ∃ call ∈ calls, call.Retires realm := by
  intro realm hrealm
  unfold Delegation.owedAfter at hrealm
  split_ifs at hrealm with hholds
  · exact howed realm hrealm
  · rcases List.mem_cons.1 hrealm with rfl | hrealm
    · rw [Bool.not_eq_true, holds_eq_false] at hholds
      exact ⟨hholds, _, hretiring, rfl⟩
    · exact howed realm hrealm

theorem Sound.finish (h : Sound s) (run : String) : Sound (s.finish run) := by
  unfold State.finish
  cases hheld : s.held.lookup run with
  | none => exact h
  | some old =>
    have hnamed := h.held _ (Assoc.mem_of_lookup hheld)
    refine ⟨fun c hc => h.held c (mem_without hc), fun c hc => ?_, fun run' old' bound hc c hmem => ?_,
      Sound.owedAfter List.mem_cons_self fun realm hrealm => ?_⟩
    · rcases List.mem_cons.1 hc with rfl | hc
      · exact hnamed
      · exact h.calls c hc
    · rcases List.mem_cons.1 hc with hc | hc
      · cases hc
      · exact h.alone run' old' bound hc c (mem_without hmem)
    · obtain ⟨hnone, call, hcall, hretires⟩ := h.owed realm hrealm
      exact ⟨fun c hc => hnone c (mem_without hc), call, List.mem_cons_of_mem _ hcall, hretires⟩

theorem Sound.bind (h : Sound s) (hcall : .exchanged run g ∈ s.calls)
    (hrevoking : ∀ run old bound, .revoking run old bound ∈ s.calls → old.realm ≠ g.realm) :
    Sound (s.bind run g) := by
  have hnamed : g.session = some g.realm := h.calls _ hcall
  have hheld : ∀ c ∈ Assoc.put run g s.held, c.2.session = some c.2.realm := fun c hc => by
    rcases Assoc.mem_put.1 hc with rfl | ⟨hc, -⟩
    · exact hnamed
    · exact h.held c hc
  have halone : ∀ run' old bound, .revoking run' old bound ∈ s.calls →
      ∀ c ∈ Assoc.put run g s.held, c.2.realm ≠ old.realm := fun run' old bound hc c hmem => by
    rcases Assoc.mem_put.1 hmem with rfl | ⟨hmem, -⟩
    · exact (hrevoking run' old bound hc).symm
    · exact h.alone run' old bound hc c hmem
  have howed : ∀ calls : List Call, (∀ c ∈ s.calls, (∃ realm, c.Retires realm) → c ∈ calls) →
      ∀ realm ∈ s.owed.filter (· ≠ g.realm), (∀ c ∈ Assoc.put run g s.held, c.2.realm ≠ realm) ∧
        ∃ call ∈ calls, call.Retires realm := fun calls hcalls realm hrealm => by
    obtain ⟨hrealm, hne⟩ := List.mem_filter.1 hrealm
    obtain ⟨hnone, c, hc, hretires⟩ := h.owed realm hrealm
    refine ⟨fun c hc => ?_, c, hcalls c hc ⟨realm, hretires⟩, hretires⟩
    rcases Assoc.mem_put.1 hc with rfl | ⟨hc, -⟩
    · exact fun heq => absurd heq.symm (by simpa using hne)
    · exact hnone c hc
  have hkept : ∀ c ∈ s.calls, (∃ realm, c.Retires realm) → c ∈ s.calls.erase (.exchanged run g) :=
    fun c hc ⟨realm, hretires⟩ => (List.mem_erase_of_ne fun heq => by
      rw [heq] at hretires
      exact hretires).2 hc
  unfold State.bind
  cases hold : s.held.lookup run with
  | none =>
    exact ⟨hheld, fun c hc => h.calls c (List.mem_of_mem_erase hc),
      fun run' old bound hc => halone run' old bound (List.mem_of_mem_erase hc), howed _ hkept⟩
  | some old =>
    refine ⟨hheld, fun c hc => ?_, fun run' old' bound hc => ?_,
      Sound.owedAfter List.mem_cons_self (howed _ fun c hc hretires =>
        List.mem_cons_of_mem _ (hkept c hc hretires))⟩
    · rcases List.mem_cons.1 hc with rfl | hc
      · exact h.held _ (Assoc.mem_of_lookup hold)
      · exact h.calls c (List.mem_of_mem_erase hc)
    · rcases List.mem_cons.1 hc with hc | hc
      · cases hc
      · exact halone run' old' bound (List.mem_of_mem_erase hc)

/-- A grant that no other shares its session with is about to be revoked; one that does is dropped,
and its session is owed nothing. -/
theorem Sound.compare (h : Sound s) (hcall : .retiring run old bound ∈ s.calls) :
    Sound (s.replace (.retiring run old bound)
      (if s.shared old then [] else [.revoking run old bound])) := by
  have hnamed : old.session = some old.realm := h.calls _ hcall
  have hshared : s.shared old = true ↔ ∃ c ∈ s.held, c.2.realm = old.realm := by
    unfold State.shared
    rw [hnamed, Option.isSome_some, Bool.true_and, List.any_eq_true]
    refine exists_congr fun c => and_congr_right fun hc => ?_
    rw [h.held c hc]
    simp
  refine ⟨h.held, fun c hc => ?_, fun run' old' bound' hc c hmem => ?_, fun realm hrealm =>
    ⟨(h.owed realm hrealm).1, ?_⟩⟩
  · rcases mem_calls_replace hc with hc | hc
    · split_ifs at hc
      · cases hc
      · rw [List.mem_singleton.1 hc]
        exact hnamed
    · exact h.calls c hc
  · rcases mem_calls_replace hc with hc | hc
    · split_ifs at hc with hs
      · cases hc
      · cases List.mem_singleton.1 hc
        exact fun heq => hs (hshared.2 ⟨c, hmem, heq⟩)
    · exact h.alone run' old' bound' hc c hmem
  · obtain ⟨hnone, call, hmem, hretires⟩ := h.owed realm hrealm
    by_cases heq : call = .retiring run old bound
    · rw [heq] at hretires
      have hs : ¬ s.shared old = true := fun hs => by
        obtain ⟨c, hc, hrealm⟩ := hshared.1 hs
        exact hnone c hc (hrealm.trans hretires)
      refine ⟨.revoking run old bound, List.mem_append_left _ ?_, hretires⟩
      rw [if_neg hs]
      exact List.mem_singleton_self _
    · exact ⟨call, List.mem_append_right _ ((List.mem_erase_of_ne heq).2 hmem), hretires⟩

theorem Sound.revoke (h : Sound s) : Sound { s.replace (.revoking run old bound) [] with
    owed := s.owed.filter (· ≠ old.realm) } := by
  refine ⟨h.held, fun c hc => ?_, fun run' old' bound' hc => ?_, fun realm hrealm => ?_⟩
  · exact h.calls c (List.mem_of_mem_erase hc)
  · exact h.alone run' old' bound' (List.mem_of_mem_erase hc)
  · obtain ⟨hrealm, hne⟩ := List.mem_filter.1 hrealm
    obtain ⟨hnone, call, hcall, hretires⟩ := h.owed realm hrealm
    refine ⟨hnone, call, (List.mem_erase_of_ne fun heq => ?_).2 hcall, hretires⟩
    rw [heq] at hretires
    exact absurd hretires.symm (by simpa using hne)

theorem Sound.step (h : Sound s) (hop : s.Orderly op) : Sound (s.step op) := by
  cases op with
  | exchange run realm session =>
    refine ⟨h.held, fun c hc => ?_, fun run' old bound hc => ?_, fun realm' hrealm => ?_⟩
    · rcases List.mem_cons.1 hc with rfl | hc
      · exact hop
      · exact h.calls c hc
    · exact h.alone run' old bound ((List.mem_cons.1 hc).resolve_left fun heq => by cases heq)
    · obtain ⟨hnone, call, hcall, hretires⟩ := h.owed realm' hrealm
      exact ⟨hnone, call, List.mem_cons_of_mem _ hcall, hretires⟩
  | insert run g =>
    rw [State.step]
    split_ifs with hcall
    · exact h.bind hcall hop
    · exact h
  | compare run old bound =>
    rw [State.step]
    split_ifs with hcall hs
    · have := h.compare hcall
      rwa [if_pos hs] at this
    · have := h.compare hcall
      rwa [if_neg hs] at this
    · exact h
  | revoke run old bound =>
    rw [State.step]
    split_ifs
    · exact h.revoke
    · exact h
  | unsent run old bound => exact hop.elim
  | lookup run =>
    rw [State.step]
    cases hheld : s.held.lookup run with
    | none => exact h
    | some g =>
      refine ⟨h.held, fun c hc => ?_, fun run' old bound hc => ?_, fun realm hrealm => ?_⟩
      · rcases List.mem_cons.1 hc with rfl | hc
        · exact h.held _ (Assoc.mem_of_lookup hheld)
        · exact h.calls c hc
      · exact h.alone run' old bound ((List.mem_cons.1 hc).resolve_left fun heq => by cases heq)
      · obtain ⟨hnone, call, hcall, hretires⟩ := h.owed realm hrealm
        exact ⟨hnone, call, List.mem_cons_of_mem _ hcall, hretires⟩
  | lock run g =>
    rw [State.step]
    split_ifs with hcall
    · exact h.replace_token (fun _ => id) (by simp [Call.held]) fun _ => hcall.1
    · exact h
  | settle run g => exact h.replace_token (fun _ => id) (by simp) fun hne => (hne rfl).elim
  | refuse run g =>
    rw [State.step]
    split_ifs with hcall
    · exact h.replace_token (fun _ => id) (by simp [Call.held]) fun _ => hcall
    · exact h
  | drop run g =>
    rw [State.step]
    split_ifs with hcall
    · have hreplaced : Sound (s.replace (.refused run g) []) :=
        h.replace_token (fun _ => id) (by simp) fun hne => (hne rfl).elim
      exact ⟨fun c hc => hreplaced.held c (mem_without hc), hreplaced.calls,
        fun run' old bound hc c hmem => hreplaced.alone run' old bound hc c (mem_without hmem),
        fun realm hrealm => ⟨fun c hc => (hreplaced.owed realm hrealm).1 c (mem_without hc),
          (hreplaced.owed realm hrealm).2⟩⟩
    · exact h
  | remove run => exact h.finish run

/-- A step leaves a held grant where it is, unless it lets it go. -/
theorem lookup_step (hop : s.Orderly op) (hheld : s.held.lookup run = some g) :
    (s.step op).held.lookup run = some g ∨ LetsGo run g op := by
  cases op with
  | exchange _ _ _ => exact Or.inl hheld
  | insert run' g' =>
    by_cases heq : run' = run
    · exact Or.inr heq
    · refine Or.inl ?_
      have hput : (Assoc.put run' g' s.held).lookup run = some g := by
        rw [Assoc.lookup_put, if_neg fun h => heq h.symm, hheld]
      rw [State.step]
      split_ifs
      · unfold State.bind
        cases s.held.lookup run' <;> exact hput
      · exact hheld
  | compare _ _ _ =>
    rw [State.step]
    split_ifs <;> exact Or.inl hheld
  | revoke _ _ _ =>
    rw [State.step]
    split_ifs <;> exact Or.inl hheld
  | unsent _ _ _ => exact Or.inl hheld
  | lookup run' =>
    rw [State.step]
    cases s.held.lookup run' <;> exact Or.inl hheld
  | lock _ _ =>
    rw [State.step]
    split_ifs <;> exact Or.inl hheld
  | settle _ _ => exact Or.inl hheld
  | refuse _ _ =>
    rw [State.step]
    split_ifs <;> exact Or.inl hheld
  | drop run' g' =>
    rw [State.step]
    split_ifs
    · by_cases heq : run' = run
      · subst heq
        exact Or.inr ⟨rfl, (hop g hheld).symm⟩
      · refine Or.inl ?_
        show (Assoc.without run' s.held).lookup run = some g
        rw [Assoc.lookup_without, if_neg fun h => heq h.symm, hheld]
    · exact Or.inl hheld
  | remove run' =>
    by_cases heq : run' = run
    · exact Or.inr heq
    · refine Or.inl ?_
      rw [State.step, State.finish]
      cases s.held.lookup run' with
      | none => exact hheld
      | some old =>
        show (Assoc.without run' s.held).lookup run = some g
        rw [Assoc.lookup_without, if_neg fun h => heq h.symm, hheld]

theorem Sound.lives (h : Sound s) (hop : s.Orderly op) : Lives s op where
  revokes old hrevokes run g hbound := by
    cases op with
    | revoke run' old' bound =>
      obtain ⟨rfl, hcall, -⟩ := hrevokes
      exact h.alone _ _ _ hcall _ (Assoc.mem_of_lookup hbound.1)
    | _ => exact hrevokes.elim
  stays run g hheld := lookup_step hop hheld
  ends realm hrealm := ((h.step hop).owed realm hrealm).2

end Invariant

section Runs

/-- In every run of orderly steps, grants live as long as their runs. -/
theorem lives_of_orderly {ops : List Op} (h : Machine.Along State.step State.Orderly {} ops) :
    Machine.Along State.step Lives {} ops :=
  (h.with (fun _ _ hs hop => hs.step hop) Sound.start).mono fun _ _ hs => hs.1.lives hs.2

/-- One run is bound, asked for its token and ended. -/
def oneRun : List Op :=
  [.exchange "r1" "ann" (some "ann"), .insert "r1" ⟨0, "ann", some "ann"⟩, .lookup "r1",
    .lock "r1" ⟨0, "ann", some "ann"⟩, .settle "r1" ⟨0, "ann", some "ann"⟩, .remove "r1",
    .compare "r1" ⟨0, "ann", some "ann"⟩ none, .revoke "r1" ⟨0, "ann", some "ann"⟩ none]

theorem lives_oneRun : Machine.Along State.step Lives {} oneRun := by
  refine lives_of_orderly ⟨rfl, fun run old bound h => ?_, trivial, trivial, trivial, trivial, trivial,
    trivial, trivial⟩
  simp [State.step] at h

/-- The second run of a session is bound between the comparison and the revocation of the first. -/
def overtaken : List Op :=
  [.exchange "r1" "ann" (some "ann"), .insert "r1" ⟨0, "ann", some "ann"⟩,
    .exchange "r2" "ann" (some "ann"), .remove "r1", .compare "r1" ⟨0, "ann", some "ann"⟩ none,
    .insert "r2" ⟨1, "ann", some "ann"⟩, .revoke "r1" ⟨0, "ann", some "ann"⟩ none]

theorem not_lives : ¬ Machine.Along State.step Lives {} overtaken := by
  rintro ⟨-, -, -, -, -, -, hlives, -⟩
  have hcalls : (Machine.run State.step {} (overtaken.take 6)).calls =
      [.revoking "r1" ⟨0, "ann", some "ann"⟩ none] := by decide
  refine hlives.revokes ⟨0, "ann", some "ann"⟩ ⟨rfl, by decide, by decide⟩ "r2"
    ⟨1, "ann", some "ann"⟩ ⟨by decide, fun run old => ⟨fun h => ?_, fun h => ?_⟩⟩ rfl
  · cases List.mem_singleton.1 (hcalls ▸ h)
  · cases List.mem_singleton.1 (hcalls ▸ h)

end Runs

end JoinedContext.AgentProxy.Delegation
