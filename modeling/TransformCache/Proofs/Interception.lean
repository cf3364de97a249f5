/-
Interception leaves no trace: whatever a manager installs, in whatever order,
the host's own table comes back.

# The table behind the table

While extensions are intercepted the host's own table is not stored anywhere.
It is spread over two places: the loaders that interception displaced, and
the table itself wherever nothing is intercepted. `History.own` is that table
as a ghost, moved only by the changes that the host makes directly, and
`Intercepts` says that the two places together are exactly it.

# Why it is an invariant

`install` restores first, so every installation starts from the host's own
table (`restoreAll_snd`), and hooking one extension moves one look-up from the
table to the displaced loaders (`intercepts_hook`). A direct change falls on
an extension that is not intercepted, where the table and the ghost agree
before and after it (`intercepts_change`).
-/
import TransformCache.Hook
import TransformCache.Proofs.Keyed

namespace TransformCache.Interception

open HookManager (fallbackExtension)

variable {L : Type}

-- ====================================================== runs of a host

/-- A manager and the table it works on. -/
abbrev State (L : Type) := HookManager L × ExtensionTable L

/-- What happens to a table under a manager. -/
inductive Event (L : Type) where
  | install (make : String → L → L) (unchanged : L) (extensions : List String)
  | restore
  /-- The host sets a loader itself. -/
  | register (extension : String) (loader : L)
  /-- The host puts a loader back itself, or takes one away. -/
  | unregister (extension : String) (previous : Option L)

/-- The state after an event. -/
def Event.apply (s : State L) : Event L → State L
  | .install make unchanged extensions => s.1.install s.2 make unchanged extensions
  | .restore => s.1.restoreAll s.2
  | .register extension loader => (s.1, s.2.insert extension loader)
  | .unregister extension previous =>
    (s.1, ExtensionTable.putBack s.2 extension previous)

/-- A host changes only what is not intercepted at that moment. -/
def Event.Allowed (s : State L) : Event L → Prop
  | .register extension _ => s.1.isHooked extension = false
  | .unregister extension _ => s.1.isHooked extension = false
  | _ => True

instance (s : State L) : ∀ e : Event L, Decidable (e.Allowed s)
  | .install .. => inferInstanceAs (Decidable True)
  | .restore => inferInstanceAs (Decidable True)
  | .register extension _ => inferInstanceAs (Decidable (s.1.isHooked extension = false))
  | .unregister extension _ => inferInstanceAs (Decidable (s.1.isHooked extension = false))

def run (s : State L) : List (Event L) → State L
  | [] => s
  | e :: rest => run (e.apply s) rest

/-- Every event of a run is allowed where it happens. -/
def Permitted (s : State L) : List (Event L) → Prop
  | [] => True
  | e :: rest => e.Allowed s ∧ Permitted (e.apply s) rest

instance decidablePermitted :
    ∀ (events : List (Event L)) (s : State L), Decidable (Permitted s events)
  | [], _ => inferInstanceAs (Decidable True)
  | e :: rest, s =>
    have := decidablePermitted rest (e.apply s)
    inferInstanceAs (Decidable (e.Allowed s ∧ Permitted (e.apply s) rest))

-- ====================================================== the ghost

/-- An installation: what it was asked for, and the host's own table then. -/
structure Installation (L : Type) where
  make : String → L → L
  unchanged : L
  extensions : List String
  own : ExtensionTable L

/-- The loader that an installation makes for an extension. It passes files on
to the host's own loader for it, or else the one for `.js`, or else hands
them over as they are. -/
def Installation.loader (i : Installation L) (extension : String) : L :=
  i.make extension
    ((i.own.get? extension <|> i.own.get? fallbackExtension).getD i.unchanged)

/-- The host's own table, moved by direct changes alone, and the installation
that is in effect. -/
structure History (L : Type) where
  own : ExtensionTable L
  last : Option (Installation L) := none

/-- What an event adds to a history. -/
def History.after (h : History L) : Event L → History L
  | .install make unchanged extensions =>
    { h with last := some ⟨make, unchanged, extensions, h.own⟩ }
  | .restore => { h with last := none }
  | .register extension loader => { h with own := h.own.insert extension loader }
  | .unregister extension previous =>
    { h with own := ExtensionTable.putBack h.own extension previous }

/-- The history of a run over a table. -/
def history (initial : ExtensionTable L) (events : List (Event L)) : History L :=
  events.foldl History.after { own := initial }

def History.wanted (h : History L) : List String :=
  match h.last with
  | some i => i.extensions
  | none => []

/-- The loader that is to answer an extension: the one that the installation in
effect made for it, or the host's own. -/
def History.answer (h : History L) (extension : String) : Option L :=
  match h.last with
  | some i =>
    if extension ∈ i.extensions then some (i.loader extension)
    else h.own.get? extension
  | none => h.own.get? extension

-- ====================================================== small steps

theorem get?_putBack (t : ExtensionTable L) (e x : String) (l : Option L) :
    (ExtensionTable.putBack t e l).get? x = if e = x then l else t.get? x := by
  cases l with
  | none => exact Keyed.get?_erase t e x
  | some l => exact Keyed.get?_insert t e x l

/-- An extension is hooked when a loader, or none, was displaced for it. -/
theorem isHooked_eq (m : HookManager L) (e : String) :
    m.isHooked e = (m.prior.get? e).isSome := rfl

/-- A fold of displaced loaders is found under the keys it was given, and the
table is what it was elsewhere. -/
private theorem get?_foldl_putBack (x : String) :
    ∀ (members : List (String × Option L)) (t : ExtensionTable L),
      Members.Sorted members →
      (members.foldl (fun t m => ExtensionTable.putBack t m.1 m.2) t).get? x
        = (Members.find? x members).getD (t.get? x) := by
  intro members
  induction members with
  | nil => intro t _; rfl
  | cons m rest ih =>
      intro t hs
      obtain ⟨hm, hrest⟩ := List.pairwise_cons.1 hs
      obtain ⟨e, l⟩ := m
      rw [List.foldl_cons, ih _ hrest, get?_putBack]
      by_cases he : e = x
      · subst he
        simp [Members.find?, Members.find?_eq_none_of_lt hm]
      · simp [Members.find?, he]

theorem get?_restoreAll (m : HookManager L) (t : ExtensionTable L) (x : String) :
    (m.restoreAll t).2.get? x = (m.prior.get? x).getD (t.get? x) :=
  get?_foldl_putBack x m.prior.members t m.prior.sorted

-- ====================================================== the invariant

/-- The displaced loaders and the table are together the host's own table, with
exactly the wanted extensions intercepted. -/
structure Intercepts (h : History L) (s : State L) : Prop where
  prior : ∀ x, s.1.prior.get? x = if x ∈ h.wanted then some (h.own.get? x) else none
  table : ∀ x, s.2.get? x = h.answer x

/-- What is not wanted is answered by the host's own loader. -/
theorem History.answer_of_not_wanted {h : History L} {x : String}
    (hx : x ∉ h.wanted) : h.answer x = h.own.get? x := by
  obtain ⟨own, last⟩ := h
  cases last with
  | none => rfl
  | some i =>
      unfold History.answer
      exact if_neg hx

/-- What is hooked is what is wanted. -/
theorem Intercepts.isHooked_iff {h : History L} {s : State L} (hi : Intercepts h s)
    (x : String) : s.1.isHooked x = true ↔ x ∈ h.wanted := by
  rw [isHooked_eq, hi.prior x]
  by_cases hx : x ∈ h.wanted <;> simp [hx]

/-- Restoring gives back the host's own table. -/
theorem Intercepts.restoreAll_snd {h : History L} {s : State L}
    (hi : Intercepts h s) : (s.1.restoreAll s.2).2 = h.own := by
  refine Keyed.ext_get? fun x => ?_
  rw [get?_restoreAll, hi.prior x, hi.table x]
  by_cases hx : x ∈ h.wanted
  · simp [hx]
  · simp [hx, History.answer_of_not_wanted hx]

/-- With nothing displaced, a table is the host's own. -/
theorem intercepts_of_wanted_nil {h : History L} (hw : h.wanted = []) :
    Intercepts h (({} : HookManager L), h.own) where
  prior := fun x => by rw [hw]; rfl
  table := fun x => by rw [History.answer_of_not_wanted (by rw [hw]; exact List.not_mem_nil)]

/-- The fallback is the host's own loader for `.js`, whether or not that is
displaced. -/
theorem Intercepts.fallback_eq {h : History L} {s : State L} (hi : Intercepts h s) :
    s.1.fallback s.2 = h.own.get? fallbackExtension := by
  rw [HookManager.fallback, hi.prior, hi.table]
  by_cases hx : fallbackExtension ∈ h.wanted
  · simp [hx]
  · simp [hx, History.answer_of_not_wanted hx]

/-- The history in which an installation over the table `own` has got as far
as `extensions`. -/
private def underWay (i : Installation L) (extensions : List String) : History L where
  own := i.own
  last := some { i with extensions }

/-- Only membership in the extensions counts. -/
private theorem intercepts_underWay_congr {i : Installation L}
    {extensions extensions' : List String} {s : State L}
    (hi : Intercepts (underWay i extensions) s)
    (hmem : ∀ x, x ∈ extensions ↔ x ∈ extensions') :
    Intercepts (underWay i extensions') s := by
  constructor
  · intro x
    have hp := hi.prior x
    simp only [underWay, History.wanted, hmem x] at hp
    exact hp
  · intro x
    have ht := hi.table x
    simp only [underWay, History.answer, hmem x] at ht
    exact ht

/-- Hooking what is hooked already changes nothing. -/
theorem hook_of_hooked {make : String → L → L} {unchanged : L} {s : State L}
    {e : String} (he : s.1.isHooked e = true) :
    HookManager.hook make unchanged s e = s := by
  obtain ⟨m, t⟩ := s
  exact if_pos he

/-- Hooking what is free displaces the loader that answers it. -/
theorem hook_of_free {make : String → L → L} {unchanged : L} {s : State L}
    {e : String} (he : ¬ s.1.isHooked e = true) :
    HookManager.hook make unchanged s e
      = (⟨s.1.prior.insert e (s.2.get? e)⟩,
          s.2.insert e (make e ((s.2.get? e <|> s.1.fallback s.2).getD unchanged))) := by
  obtain ⟨m, t⟩ := s
  exact if_neg he

/-- Hooking one more extension: one look-up moves from the table to the
displaced loaders, and an extension that is hooked already stays as it is. -/
private theorem intercepts_hook (i : Installation L) {extensions : List String}
    {s : State L} (hi : Intercepts (underWay i extensions) s) (e : String) :
    Intercepts (underWay i (e :: extensions))
      (HookManager.hook i.make i.unchanged s e) := by
  have hiff : s.1.isHooked e = true ↔ e ∈ extensions := hi.isHooked_iff e
  by_cases he : e ∈ extensions
  · rw [hook_of_hooked (hiff.2 he)]
    refine intercepts_underWay_congr hi fun x => ⟨List.mem_cons_of_mem _, fun hx => ?_⟩
    rcases List.mem_cons.1 hx with rfl | hx
    · exact he
    · exact hx
  · have hown : s.2.get? e = i.own.get? e := by
      rw [hi.table e]
      exact History.answer_of_not_wanted he
    have hfallback : s.1.fallback s.2 = i.own.get? fallbackExtension := hi.fallback_eq
    rw [hook_of_free fun hh => he (hiff.1 hh), hown, hfallback]
    constructor
    · intro x
      show (s.1.prior.insert e (i.own.get? e)).get? x
        = if x ∈ e :: extensions then some (i.own.get? x) else none
      have hp : s.1.prior.get? x
          = if x ∈ extensions then some (i.own.get? x) else none := hi.prior x
      rw [Keyed.get?_insert, hp]
      by_cases hx : e = x
      · subst hx; simp
      · simp [hx, Ne.symm hx]
    · intro x
      show (s.2.insert e (i.loader e)).get? x
        = if x ∈ e :: extensions then some (i.loader x) else i.own.get? x
      have ht : s.2.get? x
          = if x ∈ extensions then some (i.loader x) else i.own.get? x := hi.table x
      rw [Keyed.get?_insert, ht]
      by_cases hx : e = x
      · subst hx; simp
      · simp [hx, Ne.symm hx]

/-- Hooking a list of extensions, on top of those that are hooked. -/
private theorem intercepts_hooks (i : Installation L) :
    ∀ (more extensions : List String) (s : State L),
      Intercepts (underWay i extensions) s →
      Intercepts (underWay i (more.reverse ++ extensions))
        (more.foldl (HookManager.hook i.make i.unchanged) s) := by
  intro more
  induction more with
  | nil => intro extensions s hi; exact hi
  | cons e rest ih =>
      intro extensions s hi
      have := ih (e :: extensions) _ (intercepts_hook i hi e)
      simpa using this

-- ====================================================== what events preserve

/-- An installation over an intercepted table is one over the host's own. -/
private theorem intercepts_install {h : History L} {s : State L} (hi : Intercepts h s)
    (make : String → L → L) (unchanged : L) (extensions : List String) :
    Intercepts (h.after (.install make unchanged extensions))
      (s.1.install s.2 make unchanged extensions) := by
  let i : Installation L := ⟨make, unchanged, extensions, h.own⟩
  have hstart : s.1.restoreAll s.2 = ({}, h.own) := Prod.ext rfl hi.restoreAll_snd
  have hnone : Intercepts (underWay i []) (({} : HookManager L), h.own) :=
    intercepts_of_wanted_nil rfl
  unfold HookManager.install
  rw [hstart]
  exact intercepts_underWay_congr (intercepts_hooks i extensions [] _ hnone)
    fun x => by simp

/-- A direct change to an extension that is not hooked changes the table and
the host's own table alike. -/
private theorem intercepts_change {h : History L} {s : State L} (hi : Intercepts h s)
    {e : String} (hfree : s.1.isHooked e = false) (l : Option L) :
    Intercepts { h with own := ExtensionTable.putBack h.own e l }
      (s.1, ExtensionTable.putBack s.2 e l) := by
  have he : e ∉ h.wanted := fun hmem => by
    rw [(hi.isHooked_iff e).2 hmem] at hfree
    cases hfree
  have hne : ∀ x ∈ h.wanted, ¬ e = x := fun x hx heq => he (heq ▸ hx)
  constructor
  · intro x
    show s.1.prior.get? x = if x ∈ h.wanted then
      some ((ExtensionTable.putBack h.own e l).get? x) else none
    rw [hi.prior x, get?_putBack]
    by_cases hx : x ∈ h.wanted
    · rw [if_pos hx, if_pos hx, if_neg (hne x hx)]
    · rw [if_neg hx, if_neg hx]
  · intro x
    rw [get?_putBack, hi.table x]
    by_cases hx : x ∈ h.wanted
    · rw [if_neg (hne x hx)]
      obtain ⟨own, last⟩ := h
      cases last with
      | none => cases hx
      | some i =>
          have hx' : x ∈ i.extensions := hx
          simp [History.answer, hx']
    · have hnow : { h with own := ExtensionTable.putBack h.own e l }.answer x
          = (ExtensionTable.putBack h.own e l).get? x := History.answer_of_not_wanted hx
      rw [hnow, get?_putBack, History.answer_of_not_wanted hx]

/-- Every event that is allowed keeps the invariant. -/
theorem intercepts_apply {h : History L} {s : State L} (hi : Intercepts h s)
    {e : Event L} (hallowed : e.Allowed s) : Intercepts (h.after e) (e.apply s) := by
  cases e with
  | install make unchanged extensions =>
      exact intercepts_install hi make unchanged extensions
  | restore =>
      have hstart : s.1.restoreAll s.2 = ({}, h.own) := Prod.ext rfl hi.restoreAll_snd
      show Intercepts { h with last := none } (s.1.restoreAll s.2)
      rw [hstart]
      exact intercepts_of_wanted_nil rfl
  | register extension loader => exact intercepts_change hi hallowed (some loader)
  | unregister extension previous => exact intercepts_change hi hallowed previous

/-- Every moment of a permitted run keeps the invariant. -/
theorem intercepts_run (later : List (Event L)) :
    ∀ (events : List (Event L)) {h : History L} {s : State L},
      Intercepts h s → Permitted s (events ++ later) →
      Intercepts (events.foldl History.after h) (run s events) := by
  intro events
  induction events with
  | nil => intro h s hi _; exact hi
  | cons e rest ih =>
      intro h s hi hp
      -- what is permitted is asked of each event in the state that it meets
      exact ih (intercepts_apply hi hp.1) hp.2

-- ====================================================== main statement

/-- At every moment of a permitted run, `later` being what is still to come:
hooked are the extensions of the last installation, each answered by the loader
made for it; every other extension is answered as in the host's own table; and
restoring, or installing nothing, gives that table back. -/
theorem interception_exact (initial : ExtensionTable L)
    (events later : List (Event L)) (hp : Permitted ({}, initial) (events ++ later)) :
    let s := run ({}, initial) events
    let past := history initial events
    (∀ e, e ∈ s.1.hooked ↔ e ∈ past.wanted) ∧
    (∀ e, e ∉ s.1.hooked → s.2.get? e = past.own.get? e) ∧
    (∀ i, past.last = some i →
      ∀ e ∈ i.extensions, s.2.get? e = some (i.loader e)) ∧
    (s.1.restoreAll s.2) = ({}, past.own) ∧
    ∀ make unchanged, s.1.install s.2 make unchanged [] = ({}, past.own) := by
  intro s past
  have hi : Intercepts past s :=
    intercepts_run later events (intercepts_of_wanted_nil rfl) hp
  have hhooked : ∀ e, e ∈ s.1.hooked ↔ e ∈ past.wanted := fun e =>
    Keyed.mem_keys_iff.trans (hi.isHooked_iff e)
  have hrestore : s.1.restoreAll s.2 = ({}, past.own) := Prod.ext rfl hi.restoreAll_snd
  refine ⟨hhooked, fun e he => ?_, fun i hlast e he => ?_, hrestore, fun _ _ => hrestore⟩
  · rw [hi.table e]
    exact History.answer_of_not_wanted fun hw => he ((hhooked e).2 hw)
  · rw [hi.table e, History.answer, hlast]
    exact if_pos he

/-- Overlapping installations with a duplicate and an extension that had no
loader, and a direct change between them. -/
def overlapping : List (Event String) :=
  [.install (fun e delegate => e ++ " over " ++ delegate) "raw" [".a", ".new", ".a"],
    .register ".d" "d",
    .install (fun e delegate => e ++ " before " ++ delegate) "raw" [".new", ".js"]]

/-- The general statement at the overlapping installations. -/
theorem interception_exact_overlapping :
    Permitted (({}, Keyed.ofList [(".a", "a"), (".js", "js")]) : State String)
        (overlapping ++ [.restore]) ∧
      let s := run ({}, Keyed.ofList [(".a", "a"), (".js", "js")]) overlapping
      (∀ e, e ∈ s.1.hooked ↔ e ∈ [".new", ".js"]) ∧
      s.1.restoreAll s.2
        = ({}, (Keyed.ofList [(".a", "a"), (".js", "js")]).insert ".d" "d") := by
  have hp : Permitted (({}, Keyed.ofList [(".a", "a"), (".js", "js")]) : State String)
      (overlapping ++ [.restore]) := by decide
  have h := interception_exact _ overlapping [.restore] hp
  exact ⟨hp, h.1, h.2.2.2.1⟩

end TransformCache.Interception
