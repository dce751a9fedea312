import JoinedContext.Library.Outcome
import JoinedContext.Library.Url

/-!
# What the doors of the agent proxy share

A run as the Portal's record gives it, the address a door forwards to, and the check of a path a
workspace sends.
-/

namespace JoinedContext.AgentProxy

inductive Method where
  | get | head | options | post | put | patch | delete | trace | connect
  | extension (token : String)
deriving DecidableEq

/-- The `problem+json` a door answers with. -/
structure Refusal where
  status : Nat
  detail : String
deriving DecidableEq

def refuseIf (c : Prop) [Decidable c] (status : Nat) (detail : String) : Except Refusal Unit :=
  if c then .error ⟨status, detail⟩ else .ok ()

theorem refuseIf_eq_ok {c : Prop} [Decidable c] {status : Nat} {detail : String} :
    refuseIf c status detail = .ok () ↔ ¬ c := by
  unfold refuseIf
  split_ifs with h <;> simp [h]

/-- An endpoint slug: at least 26 characters of lowercase base32. -/
def IsSlug (slug : String) : Prop :=
  26 ≤ slug.toList.length ∧
    ∀ c ∈ slug.toList, ('a' ≤ c ∧ c ≤ 'z') ∨ ('2' ≤ c ∧ c ≤ '7')

/-- A repository's name in the forge. -/
def IsRepositoryName (name : String) : Prop :=
  ∀ c ∈ name.toList, c.isAlphanum = true ∨ c ∈ ['-', '_', '.']

theorem isRepositoryName_of_mem_none : ∀ name ∈ (none : Option String), IsRepositoryName name := by
  simp

/-- A run's record. The slugs in it are endpoints' own, and its repository is the forge's; a run may
have no primary endpoint yet. -/
structure RunContext where
  id : String
  project : String
  endpointSlug : String
  endpointSlugs : List String := []
  allowsWrite : Bool := false
  branch : String := ""
  /-- The folder the run writes. -/
  pathPrefix : String := ""
  /-- The project's own repository, the configuration repository where there is none. -/
  repository : Option String := none
  createdBy : String := ""
  slugs_valid : ∀ slug ∈ endpointSlug :: endpointSlugs, slug = "" ∨ IsSlug slug
  repository_valid : ∀ name ∈ repository, IsRepositoryName name

/-- The endpoints a run reads, the primary first. -/
def RunContext.slugs (run : RunContext) : List String :=
  if run.endpointSlugs = [] then [run.endpointSlug] else run.endpointSlugs

/-- The address a door forwards to: the path of a configured URL, less the slashes it ends in. -/
structure Address where
  path : List Segment := []
  plain : ∀ s ∈ path, Url.Plain s := by simp

/-- Whether a path would leave the base it is appended to. -/
def escapes (path : String) : Bool :=
  '%' ∈ path.toList || '\\' ∈ path.toList || Text.startsWith '/' path ||
    Text.contains "//" path || (Text.splitAny ['/'] path).any fun s => s ∈ [".", ".."]

/-- The segments of a path as a door reads it. -/
def segmentsOf (path : String) : List Segment := path.toList.splitOnP (· == '/')

theorem write_segmentsOf (path : String) : Url.write (segmentsOf path) = '/' :: path.toList :=
  Url.write_splitOnP path.toList

theorem segmentsOf_ne_nil (path : String) : segmentsOf path ≠ [] := List.splitOnP_ne_nil _ _

theorem splitAny_slash (path : String) :
    Text.splitAny ['/'] path = (segmentsOf path).map String.ofList := by
  have hp : (fun c : Char => decide (c ∈ ['/'])) = (· == '/') := by
    funext c
    simp [beq_eq_decide]
  rw [Text.splitAny, hp]
  rfl

section Escapes

variable {path : String} (h : escapes path = false)
include h

theorem not_mem_of_not_escapes : '%' ∉ path.toList ∧ '\\' ∉ path.toList := by
  simp only [escapes, Bool.or_eq_false_iff, decide_eq_false_iff_not] at h
  exact ⟨h.1.1.1.1, h.1.1.1.2⟩

theorem not_startsWith_of_not_escapes : Text.startsWith '/' path = false := by
  simp only [escapes, Bool.or_eq_false_iff] at h
  exact h.1.1.2

/-- No segment of a checked path is a dot segment, however it is spelled. -/
theorem not_dot_of_not_escapes {s : Segment} (hs : s ∈ segmentsOf path) : Url.isDot s = false := by
  have hpercent : '%' ∉ s := fun hc =>
    (not_mem_of_not_escapes h).1 (Text.mem_of_mem_splitOnP _ s hs _ hc)
  simp only [escapes, Bool.or_eq_false_iff, splitAny_slash, List.any_eq_false,
    decide_eq_true_eq] at h
  have hdot := h.2 (String.ofList s) (List.mem_map_of_mem hs)
  refine Url.isDot_eq_false hpercent (fun heq => hdot ?_) fun heq => hdot ?_
  · rw [heq]
    decide
  · rw [heq]
    decide

/-- The segments of a checked path are plain but for what begins a query, a fragment or is
dropped. -/
theorem plain_of_not_escapes (hkept : ∀ c ∈ path.toList, c ∉ ['?', '#', '\t', '\n', '\r'])
    {s : Segment} (hs : s ∈ segmentsOf path) : Url.Plain s := by
  refine ⟨fun c hc => ?_, not_dot_of_not_escapes h hs⟩
  have hmem := Text.mem_of_mem_splitOnP _ s hs _ hc
  have hslash : c ≠ '/' := by simpa using Text.notSep_of_mem_splitOnP _ s hs c hc
  have hback : c ≠ '\\' := fun heq => (not_mem_of_not_escapes h).2 (heq ▸ hmem)
  have := hkept c hmem
  simp only [List.mem_cons, List.not_mem_nil, or_false, not_or] at this
  simp [Url.special, Url.separates, Url.dropped, hslash, hback, this]

end Escapes

theorem plain_of_isSlug {slug : String} (h : IsSlug slug) : Url.Plain slug.toList := by
  have hchar : ∀ d : Char, ¬ (('a' ≤ d ∧ d ≤ 'z') ∨ ('2' ≤ d ∧ d ≤ '7')) → d ∉ slug.toList :=
    fun d hd hmem => hd (h.2 d hmem)
  refine ⟨fun c hc => ?_, ?_⟩
  · have hne : ∀ d : Char, d ∉ slug.toList → c ≠ d := fun d hd heq => hd (heq ▸ hc)
    simp [Url.special, Url.separates, Url.dropped, hne _ (hchar '/' (by decide)),
      hne _ (hchar '\\' (by decide)), hne _ (hchar '?' (by decide)), hne _ (hchar '#' (by decide)),
      hne _ (hchar '\t' (by decide)), hne _ (hchar '\n' (by decide)),
      hne _ (hchar '\r' (by decide))]
  · have hlen := h.1
    refine Url.isDot_eq_false (hchar '%' (by decide)) (fun heq => ?_) fun heq => ?_ <;>
      rw [heq] at hlen <;> exact absurd hlen (by decide)

/-- A segment that is written as it is. -/
def Clean (s : Segment) : Prop := Url.Plain s ∧ ∀ c ∈ s, Url.pathSet c = false ∧ c ≠ '%'

theorem clean_of_all {s : Segment} (h : (s.all fun c => !Url.special c) = true)
    (hdot : Url.isDot s = false) (hset : (s.all fun c => !Url.pathSet c && c != '%') = true) : Clean s :=
  ⟨Url.plain_of_all h hdot, fun c hc => by simpa using List.all_eq_true.1 hset c hc⟩

theorem clean_of_isRepositoryName {name : String} (h : IsRepositoryName name)
    (hdot : '.' ∉ name.toList) : Clean name.toList := by
  have hchar : ∀ d : Char, ¬ (d.isAlphanum = true ∨ d ∈ ['-', '_', '.']) → ∀ c ∈ name.toList, c ≠ d :=
    fun d hd c hmem heq => hd (heq ▸ h c hmem)
  have hrange : ∀ c ∈ name.toList, 0x20 < c.toNat ∧ c.toNat < 0x7F := fun c hc => by
    rcases h c hc with halpha | hother
    · exact Text.toNat_of_isAlphanum halpha
    · simp only [List.mem_cons, List.not_mem_nil, or_false] at hother
      rcases hother with rfl | rfl | rfl <;> decide
  refine ⟨⟨fun c hc => ?_, ?_⟩, fun c hc => ⟨?_, hchar '%' (by decide) c hc⟩⟩
  · simp [Url.special, Url.separates, Url.dropped, hchar '/' (by decide) c hc,
      hchar '\\' (by decide) c hc, hchar '?' (by decide) c hc, hchar '#' (by decide) c hc,
      hchar '\t' (by decide) c hc, hchar '\n' (by decide) c hc, hchar '\r' (by decide) c hc]
  · refine Url.isDot_eq_false (fun hc => hchar '%' (by decide) _ hc rfl) (fun heq => ?_)
      fun heq => ?_ <;> exact hdot (heq ▸ List.mem_cons_self)
  · obtain ⟨hlow, hhigh⟩ := hrange c hc
    simp [Url.pathSet, hchar '"' (by decide) c hc, hchar '#' (by decide) c hc,
      hchar '<' (by decide) c hc, hchar '>' (by decide) c hc, hchar '?' (by decide) c hc,
      hchar '^' (by decide) c hc, hchar '\x60' (by decide) c hc, hchar '\x7b' (by decide) c hc,
      hchar '\x7d' (by decide) c hc]
    omega

end JoinedContext.AgentProxy
