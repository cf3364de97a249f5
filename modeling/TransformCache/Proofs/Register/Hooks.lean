/-
What a register intercepts.

While a register lives, the table that the host had is not stored anywhere. The
loaders that the register displaced and the table that it works on are together
that table, with some extensions taken over (`Over`). This holds from the
register's beginning on, each of its calls keeps it, and it says what every
extension is answered by.
-/
import TransformCache.Proofs.Interception
import TransformCache.Proofs.Register.Calls

namespace TransformCache.Register

open Interception (History Intercepts)

variable {r : Register} {table : ExtensionTable Loader} {wanted : List String}

-- ======================================================== extensions taken over

/-- The history in which a register has taken over some extensions of a table. -/
def takenOver (table : ExtensionTable Loader) (wanted : List String) : History Loader where
  own := table
  last := some ⟨fun _ delegate => .intercepting delegate, .unchanged, wanted, table⟩

/-- A register intercepts exactly the wanted extensions of a table. -/
def Over (table : ExtensionTable Loader) (wanted : List String) (r : Register) : Prop :=
  Intercepts (takenOver table wanted) (r.hooks, r.table)

/-- A hooked extension is answered by the register, which passes files on to the
loader that was there; every other one is answered as before. -/
theorem Over.get?_table (h : Over table wanted r) (e : String) :
    r.table.get? e
      = if e ∈ wanted then
          some (.intercepting
            ((table.get? e <|> table.get? HookManager.fallbackExtension).getD .unchanged))
        else table.get? e := h.table e

theorem Over.hookedExtensions_eq_nil_iff (h : Over table wanted r) :
    r.hookedExtensions = [] ↔ wanted = [] := by
  have hmem : ∀ e, e ∈ r.hookedExtensions ↔ e ∈ wanted := fun e =>
    Keyed.mem_keys_iff.trans (h.isHooked_iff e)
  simp only [List.eq_nil_iff_forall_not_mem, hmem]

/-- No loader passes files on to itself. -/
theorem intercepting_ne (delegate : Loader) : Loader.intercepting delegate ≠ delegate := by
  induction delegate with
  | host => exact fun h => by cases h
  | unchanged => exact fun h => by cases h
  | intercepting _ ih => exact fun h => ih (Loader.intercepting.inj h)

/-- The table is the host's own if nothing is taken over. -/
theorem Over.table_eq_iff (h : Over table wanted r) :
    r.table = table ↔ wanted = [] := by
  constructor
  · intro htable
    refine List.eq_nil_iff_forall_not_mem.2 fun e he => ?_
    have hget := h.get?_table e
    rw [htable, if_pos he] at hget
    cases howns : table.get? e with
    | none => rw [howns] at hget; cases hget
    | some own =>
        rw [howns] at hget
        exact intercepting_ne own (Option.some.inj hget).symm
  · intro hnone
    refine Keyed.ext_get? fun e => ?_
    rw [h.get?_table, hnone]
    rfl

-- ============================================================ what calls keep

theorem over_install {hooks : HookManager Loader} {t : ExtensionTable Loader}
    (h : Intercepts (takenOver table wanted) (hooks, t)) (extensions : List String) :
    Intercepts (takenOver table extensions)
      (hooks.install t (fun _ delegate => .intercepting delegate) .unchanged extensions) :=
  Interception.intercepts_apply h
    (e := .install (fun _ delegate => .intercepting delegate) .unchanged extensions) trivial

theorem over_create (w : World) (table : ExtensionTable Loader) (engine : Engine) (store : Nat)
    (env : Environment) (workingDirectory : FilePath) :
    Over table engine.extensions (create w table engine store env workingDirectory).1 := by
  have hnone : Intercepts (takenOver table []) (({} : HookManager Loader), table) :=
    Interception.intercepts_of_wanted_nil rfl
  exact over_install hnone engine.extensions

theorem over_hookExtensions (h : Over table wanted r) (w : World) (extensions : List String) :
    Over table extensions (r.hookExtensions w extensions).1 := over_install h extensions

/-- Options that are refused hook nothing, and so do those without extensions. -/
theorem over_configure (h : Over table wanted r) (w : World) (options : Options) :
    Over table
      (match r.config.merge options with
        | .error _ => wanted
        | .ok _ => options.extensions.getD wanted)
      (r.configure w options).register := by
  unfold configure
  cases r.config.merge options with
  | error e => exact h
  | ok merged =>
      cases options.extensions with
      | none => exact h
      | some extensions => exact over_install h extensions

theorem over_compile (h : Over table wanted r) (w : World) (path : FilePath)
    (inline : Option String) : Over table wanted (r.compile w path inline).register := by
  obtain ⟨maps, hregister⟩ := register_compile r w path inline
  rw [hregister]
  exact h

theorem over_tearDown (h : Over table wanted r) (w : World) :
    Over table (if r.tornDown then wanted else []) (r.tearDown w).1 := by
  unfold tearDown
  split
  · exact h
  · -- putting the loaders back is an installation of nothing
    exact over_install h []

end TransformCache.Register
