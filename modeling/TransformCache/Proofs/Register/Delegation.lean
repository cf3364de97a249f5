/-
Who loads a file whose extension is hooked.

An interceptor compiles the files that the filter accepts, and passes every
other file on to a loader that it was given when it was installed. Which loader
that is must not depend on how often, in which order and for which extensions
interceptors were installed before. It is always the host's own: the one it
brought along for the file's extension, or else for `.js`, or else the one that
hands over files as they are (`delegate_eq`). So a file that is ignored never
comes back to the register, and one that is accepted is compiled once.
-/
import TransformCache.Proofs.Register.Life

namespace TransformCache.Life

open Register (Over)
open Teardown (State)

variable {T : ExtensionTable HostLoader} {r : Register} {w : World} {path : FilePath}
  {inline : Option String} {wanted : List String}

-- ========================================================== the host's loaders

/-- A host's table as a register finds it. -/
def hosted (T : ExtensionTable HostLoader) : ExtensionTable Loader := T.map .host

/-- What a host makes of a file by itself: with its own loader for the
extension, or with the one for `.js`, or as it is. -/
def ownCode (T : ExtensionTable HostLoader) (disk : FileSystem) (path : FilePath)
    (inline : Option String) : Except Error String :=
  match T.get? (ExtensionTable.extensionOf path) <|> T.get? HookManager.fallbackExtension with
  | some own => own.code disk path inline
  | none => unchangedCode disk path inline

/-- The calls of a module that a load makes: it is handed code at most once. -/
def handovers (o : Outcome Handover) : List Handover := o.result.toOption.toList

/-- A hooked extension is answered by an interceptor, and that passes files on
to the host's own loader. -/
theorem delegate_eq (h : Over (hosted T) wanted r)
    (hhooked : ExtensionTable.extensionOf path ∈ r.hookedExtensions) (inline : Option String) :
    ∃ delegate, ExtensionTable.loaderFor r.table path = .ok (.intercepting delegate) ∧
      ∀ w : World, r.loadWith w path inline delegate
        = ⟨Handover.mk path <$> ownCode T w.disk path inline, r, w⟩ := by
  have hwanted : ExtensionTable.extensionOf path ∈ wanted :=
    (Keyed.mem_keys_iff.trans (h.isHooked_iff _)).1 hhooked
  have hget := h.get?_table (ExtensionTable.extensionOf path)
  rw [if_pos hwanted] at hget
  refine ⟨_, by rw [ExtensionTable.loaderFor, hget], fun w => ?_⟩
  have hown : (((hosted T).get? (ExtensionTable.extensionOf path)
        <|> (hosted T).get? HookManager.fallbackExtension) : Option Loader)
      = (T.get? (ExtensionTable.extensionOf path)
        <|> T.get? HookManager.fallbackExtension).map .host := by
    unfold hosted
    rw [Keyed.get?_map, Keyed.get?_map]
    cases T.get? (ExtensionTable.extensionOf path) with
    | none => rfl
    | some own => rfl
  rw [hown]
  unfold ownCode
  cases (T.get? (ExtensionTable.extensionOf path)
      <|> T.get? HookManager.fallbackExtension : Option HostLoader) with
  | none => rfl
  | some own => rfl

-- ============================================================ accepted files

/-- What happens when a file is loaded that the register compiles is what
happens in the compile. -/
theorem load_eq_compile (h : compiles r path = true) (w : World) (inline : Option String) :
    (r.load w path inline).result = Handover.mk path <$> (r.compile w path inline).result ∧
      (r.load w path inline).register = (r.compile w path inline).register ∧
      (r.load w path inline).world.session = (r.compile w path inline).world.session ∧
      (r.load w path inline).world.invocations = (r.compile w path inline).world.invocations := by
  have hview : Register.View r.store path (announced r w path) w := ⟨rfl, rfl, rfl, rfl⟩
  rw [load_of_compiles h, Register.compile_eq, Register.compile_eq r w,
    Register.deed_congr hview]
  refine ⟨rfl, rfl, ?_, ?_⟩
  · show ((r.deed w path inline).outcome r (announced r w path)).world.session = _
    rw [Register.session_outcome, Register.session_outcome]
    cases (r.deed w path inline).filed with
    | none => rfl
    | some rec => exact Register.session_file (v := announced r w path) (w := w) rfl _ _
  · show ((r.deed w path inline).outcome r (announced r w path)).world.invocations = _
    rw [Register.invocations_outcome, Register.invocations_outcome]
    rfl

-- =========================================================== main statement

/-- For every run of a register over a host's table, at every file whose
extension is hooked. If the filter ignores the file, it is loaded as the host
loads it by itself, and beyond a message nothing has happened to the register,
to its source maps, to the stores and to the account of calls. If the filter
accepts it, the module is handed the code of a compile, once, or nothing if that
fails, and what has happened is what happens in that compile. -/
theorem load_hooked (w : World) (T : ExtensionTable HostLoader) (engine : Engine) (n : Nat)
    (env : Environment) (workingDirectory : FilePath) (moves : List Move) (path : FilePath)
    (inline : Option String)
    (hhooked : ExtensionTable.extensionOf path ∈
      (run (Register.create w (hosted T) engine n env workingDirectory)
        moves).1.hookedExtensions) :
    let s := run (Register.create w (hosted T) engine n env workingDirectory) moves
    let done := s.1.load s.2 path inline
    let compiled := s.1.compile s.2 path inline
    (s.1.config.filter.ignores path = true →
      done = ⟨Handover.mk path <$> ownCode T s.2.disk path inline, s.1,
        s.2.send (s.1.config.trace ("ignoring " ++ path.text))⟩) ∧
    (s.1.config.filter.accepts path = true →
      (∀ code, compiled.result = .ok code → handovers done = [⟨path, code⟩]) ∧
      (∀ e, compiled.result = .error e → done.result = .error e ∧ handovers done = []) ∧
      done.register = compiled.register ∧ done.world.session = compiled.world.session ∧
      done.world.invocations = compiled.world.invocations) := by
  intro s done compiled
  obtain ⟨wanted, hover⟩ : ∃ wanted, Over (hosted T) wanted s.1 :=
    over_run ⟨_, Register.over_create w (hosted T) engine n env workingDirectory⟩ moves
  obtain ⟨delegate, hloader, hdelegate⟩ := delegate_eq hover hhooked inline
  refine ⟨fun hignores => ?_, fun haccepts => ?_⟩
  · show s.1.load s.2 path inline = _
    unfold Register.load
    rw [hloader]
    simp only
    rw [Register.loadWith, if_pos hignores, hdelegate]
    rfl
  · have hcompiles : compiles s.1 path = true := by
      unfold compiles
      rw [hloader]
      exact haccepts
    obtain ⟨hresult, hregister, hsession, hinvocations⟩ := load_eq_compile hcompiles s.2 inline
    have hresult' : done.result = Handover.mk path <$> compiled.result := hresult
    refine ⟨fun code hcode => ?_, fun e he => ?_, hregister, hsession, hinvocations⟩
    · unfold handovers
      rw [hresult', hcode]
      rfl
    · have herror : done.result = .error e := by
        rw [hresult', he]
        rfl
      refine ⟨herror, ?_⟩
      unfold handovers
      rw [herror]
      rfl

-- ------------------------------------------------- the loader of another kind

/-- A host's loader that writes its name before a file's text. -/
def naming (name : String) : HostLoader where
  name := name
  code disk path inline := (name ++ ": " ++ ·) <$> unchangedCode disk path inline

/-- A vendored file of a kind that the host has no loader for. -/
def vendored : World :=
  World.ofDisk (.set (.set .empty ["node_modules"] .directory)
    ["node_modules", "x.vue"] (.file (Utf8.encode "x") 5000))

def scriptHost : ExtensionTable HostLoader := (∅ : ExtensionTable HostLoader).insert ".js"
  (naming "script")

/-- Extensions are hooked several times, the script's at the end. -/
def rehooked : List Move := [.call (.hook [".ts"]), .call (.hook [".vue", ".vue", ".js"])]

/-- The general statement for the file, which is ignored. The host's loader for
scripts gets it, although it is displaced itself. -/
theorem load_hooked_vendored :
    let s := run (Register.create vendored (hosted scriptHost) Teardown.scripts 0 {} ⟨"/"⟩)
      rehooked
    ExtensionTable.extensionOf ⟨"/node_modules/x.vue"⟩ ∈ s.1.hookedExtensions ∧
      (s.1.load s.2 ⟨"/node_modules/x.vue"⟩ none).result
        = .ok ⟨⟨"/node_modules/x.vue"⟩, "script: x"⟩ := by
  intro s
  have hhooked : ExtensionTable.extensionOf ⟨"/node_modules/x.vue"⟩ ∈ s.1.hookedExtensions := by
    decide +kernel
  obtain ⟨hignored, -⟩ := load_hooked vendored scriptHost Teardown.scripts 0 {} ⟨"/"⟩ rehooked
    ⟨"/node_modules/x.vue"⟩ none hhooked
  refine ⟨hhooked, ?_⟩
  rw [hignored (by decide +kernel)]
  exact toOption_eq_some.1 (by decide +kernel)

end TransformCache.Life
