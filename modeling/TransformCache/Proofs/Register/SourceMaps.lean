/-
Whose source map is found for a file that was loaded.

# What a compile answers with

A compile answers with one output: that of the entry which holds, or what the
engine makes (`product`). Its code is handed over and its map registered. An
entry was held when the register began, or what was recorded last under its
key; so code and map were made by one call of the engine, or came in one entry
of the store's file (`Descends`).

# Files that are not compiled

A file that is ignored is handed over as it is, and nothing is registered for
it. So what is found for it afterwards is what was registered before: the map
of the last output that the file was compiled to, even if that was long ago
(`sourceMap_of_load`). It follows what the module received exactly if there was
no such output, or it had no map.
-/
import TransformCache.Proofs.Register.Delegation
import TransformCache.Proofs.Register.Recordings

namespace TransformCache

/-- A map that is registered for a file is none for a file of other components. -/
theorem SourceMaps.retrieve_register_of_ne (s : SourceMaps) {path other : FilePath}
    (h : path.components ≠ other.components) (map : Option Json) :
    (s.register path map).retrieve other = s.retrieve other := by
  have hothers : (s.maps.filter (·.1 ≠ path.components)).find? (·.1 = other.components)
      = s.maps.find? (·.1 = other.components) := by
    rw [List.find?_filter]
    congr 1
    funext m
    by_cases hm : m.1 = other.components
    · simp [hm, h.symm]
    · simp [hm]
  unfold retrieve register
  cases map with
  | none => rw [hothers]
  | some m => rw [List.find?_cons_of_neg (by simpa using h), hothers]

namespace Register

variable {r : Register} {v w : World} {path : FilePath} {inline : Option String}
  {output : Output}

-- ================================================================ products

/-- What the store answers with is what it holds for the file's ticket. -/
theorem answered_cases {entry : Cache.Entry} (h : r.consult w path = .ok (.answered entry)) :
    ∃ options t, r.engine.optionsFor r.config.transform path = .ok options ∧
      r.ticket w options path = .ok t ∧ (w.store r.store).lookUp t.key = some entry ∧
      entry.stamp = t.stamp := by
  unfold consult at h
  cases hoptions : r.engine.optionsFor r.config.transform path with
  | error reason => rw [hoptions] at h; cases h
  | ok options =>
      rw [hoptions] at h
      simp only at h
      split at h
      · cases hticket : r.ticket w options path with
        | error e => rw [hticket] at h; cases h
        | ok t =>
            rw [hticket] at h
            simp only at h
            cases hentry : (w.store r.store).lookUp t.key with
            | none => rw [hentry] at h; cases h
            | some found =>
                rw [hentry, Verdict.of] at h
                by_cases hholds : found.holds t.stamp = true
                · rw [if_pos hholds] at h
                  cases h
                  exact ⟨options, t, rfl, hticket, hentry, of_decide_eq_true hholds⟩
                · rw [if_neg hholds] at h
                  cases h
      · cases h

/-- The output that a compile answers with, if it answers. -/
def product (r : Register) (w : World) (path : FilePath) (inline : Option String) :
    Option Output :=
  match r.consult w path with
  | .error _ => none
  | .ok (.answered entry) => some ⟨entry.code, entry.map⟩
  | .ok (.unanswered options _ _) => (r.engine.invoke w.disk options path inline).1.toOption

/-- A product is answered with its code, and its map is registered. -/
theorem deed_of_product (r : Register) (w : World) (path : FilePath) (inline : Option String) :
    (r.deed w path inline).result.toOption = (r.product w path inline).map (·.code) ∧
      (r.deed w path inline).maps
        = match r.product w path inline with
          | some output => r.maps.register path output.map
          | none => r.maps := by
  unfold deed product
  cases r.consult w path with
  | error e => exact ⟨rfl, rfl⟩
  | ok consultation =>
      cases consultation with
      | answered entry => exact ⟨rfl, rfl⟩
      | unanswered options ticket stale =>
          unfold deedOfCall
          simp only
          cases (r.engine.invoke w.disk options path inline).1 with
          | error reason => exact ⟨rfl, rfl⟩
          | ok output => exact ⟨rfl, rfl⟩

/-- A compile that answers has a product. -/
theorem compile_of_ok {code : String} (h : (r.compile w path inline).result = .ok code) :
    ∃ output, r.product w path inline = some output ∧ code = output.code ∧
      (r.compile w path inline).register = { r with maps := r.maps.register path output.map } := by
  rw [compile_eq] at h ⊢
  obtain ⟨hresult, hmaps⟩ := deed_of_product r w path inline
  have hcode : (r.deed w path inline).result = .ok code := h
  rw [hcode] at hresult
  obtain ⟨output, hproduct, houtput⟩ := Option.map_eq_some_iff.1 hresult.symm
  rw [hproduct] at hmaps
  refine ⟨output, hproduct, houtput.symm, ?_⟩
  unfold Deed.outcome
  rw [hmaps]

theorem maps_compile (r : Register) (w : World) (path : FilePath) (inline : Option String) :
    (r.compile w path inline).register.maps
      = match r.product w path inline with
        | some output => r.maps.register path output.map
        | none => r.maps := by
  rw [compile_eq]
  exact (deed_of_product r w path inline).2

/-- A product was held for the file's ticket, or the engine is called and makes
it. -/
theorem product_cases (h : r.product w path inline = some output) :
    (∃ options t entry, r.engine.optionsFor r.config.transform path = .ok options ∧
        r.ticket w options path = .ok t ∧ (w.store r.store).lookUp t.key = some entry ∧
        entry.stamp = t.stamp ∧ output = ⟨entry.code, entry.map⟩ ∧
        (r.compile w path inline).world.invocations = w.invocations) ∨
      ∃ options call, r.engine.invoke w.disk options path inline = (.ok output, call) ∧
        (r.compile w path inline).world.invocations = w.invocations ++ [call] := by
  rw [compile_eq, invocations_outcome]
  unfold product at h
  unfold deed
  cases hconsult : r.consult w path with
  | error e =>
      rw [hconsult] at h
      cases h
  | ok consultation =>
      rw [hconsult] at h
      cases consultation with
      | answered entry =>
          obtain ⟨options, t, hoptions, hticket, hentry, hstamp⟩ := answered_cases hconsult
          exact .inl ⟨options, t, entry, hoptions, hticket, hentry, hstamp,
            (Option.some.inj h).symm, List.append_nil _⟩
      | unanswered options ticket stale =>
          right
          have hmade := toOption_eq_some.1 h
          exact ⟨options, _, Prod.ext hmade rfl, by rw [calls_deedOfCall]⟩

end Register

namespace Life

open Register (Recording Ticket)
open Teardown (State)

variable {s : State} {m : Move} {past : List Recording} {init : Keyed Cache.Entry}
  {path : FilePath} {inline : Option String} {output : Output}

-- ============================================================ their descent

/-- Where the output comes from that a compile answers with: it was held since
the register began, was recorded last under the file's key, or is made now. -/
inductive Descends (init : Keyed Cache.Entry) (past : List Recording) (r : Register) (w : World)
    (path : FilePath) (inline : Option String) : Output → Prop
  | held {options : EngineOptions} {t : Ticket} {entry : Cache.Entry}
      (hoptions : r.engine.optionsFor r.config.transform path = .ok options)
      (hticket : r.ticket w options path = .ok t) (hlatest : latest t.key past = none)
      (hentry : init.get? t.key = some entry) (hstamp : entry.stamp = t.stamp)
      (hquiet : (r.compile w path inline).world.invocations = w.invocations) :
      Descends init past r w path inline ⟨entry.code, entry.map⟩
  | since {output : Output} (h : Origin past r w path inline output) :
      Descends init past r w path inline output

theorem Accounted.descends (h : Accounted init past s)
    (hproduct : s.1.product s.2 path inline = some output) :
    Descends init past s.1 s.2 path inline output := by
  rcases Register.product_cases hproduct with
    ⟨options, t, entry, hoptions, hticket, hentry, hstamp, rfl, hquiet⟩ |
    ⟨options, call, hinvoke, hcalled⟩
  · obtain ⟨hon, hget⟩ : (s.2.store s.1.store).enabled = true ∧
        (s.2.store s.1.store).entries.get? t.key = some entry := by
      unfold Cache.Store.lookUp at hentry
      split at hentry
      next hon => exact ⟨hon, hentry⟩
      next => cases hentry
    rw [h.entries hon] at hget
    cases hlatest : latest t.key past with
    | none =>
        rw [hlatest] at hget
        exact .held hoptions hticket hlatest hget hstamp hquiet
    | some rec =>
        rw [hlatest] at hget
        obtain rfl : rec.entry = entry := Option.some.inj hget
        exact .since (.recorded hoptions hticket hlatest hstamp hquiet)
  · exact .since (.made hinvoke hcalled)

-- ======================================================= what is registered

/-- The file that a move compiles, with the map of what it is compiled to. -/
def Move.mapped (s : State) (m : Move) : Option (FilePath × Option Json) :=
  (m.compile? s).bind fun (w, path, inline) =>
    (s.1.product w path inline).map fun output => (path, output.map)

/-- The files that are compiled in a run, with their maps. -/
def mapped (s : State) : List Move → List (FilePath × Option Json)
  | [] => []
  | m :: rest => (m.mapped s).toList ++ mapped (m.apply s) rest

/-- The map that a file had when it was compiled last. -/
def lastMap (path : FilePath) (past : List (FilePath × Option Json)) : Option Json :=
  (past.filter fun found => found.1.components = path.components).getLast?.bind (·.2)

theorem lastMap_append (path : FilePath) (past : List (FilePath × Option Json))
    (found : FilePath × Option Json) :
    lastMap path (past ++ [found])
      = if found.1.components = path.components then found.2 else lastMap path past := by
  unfold lastMap
  rw [List.filter_append]
  by_cases hfound : found.1.components = path.components
  · simp [hfound]
  · simp [hfound]

/-- What compiles no file leaves the maps alone. -/
theorem maps_of_compile?_eq_none (h : m.compile? s = none) : (m.apply s).1.maps = s.1.maps := by
  cases m with
  | call c =>
      cases c with
      | configure options =>
          simp only [Move.apply, Teardown.Call.apply]
          rcases s.1.configure_cases s.2 options with ⟨hsame, -⟩ | ⟨_, _, _, _, -, hregister, -⟩
          · rw [hsame]
          · rw [hregister]
      | hook extensions => rfl
      | compile path inline => cases h
      | tearDown =>
          simp only [Move.apply, Teardown.Call.apply]
          rcases s.1.tearDown_cases s.2 with hsame | ⟨_, _, hdone⟩
          · rw [hsame]
          · rw [hdone]
      | turn queue => rfl
  | load path inline =>
      obtain ⟨messages, hload⟩ := load_of_not_compiles (compiles_of_compile?_eq_none h) inline
      simp only [Move.apply, hload]
  | _ => rfl

/-- For every file there is the map of its last compile. -/
def Mapped (past : List (FilePath × Option Json)) (s : State) : Prop :=
  ∀ path, s.1.sourceMap path = lastMap path past

theorem mapped_apply {past : List (FilePath × Option Json)} (h : Mapped past s) (m : Move) :
    Mapped (past ++ (m.mapped s).toList) (m.apply s) := by
  intro path
  cases hcompile : m.compile? s with
  | none =>
      have hnone : m.mapped s = none := by
        unfold Move.mapped
        rw [hcompile]
        rfl
      rw [hnone, Option.toList_none, List.append_nil, Register.sourceMap,
        maps_of_compile?_eq_none hcompile]
      exact h path
  | some asked =>
      obtain ⟨w, file, inline⟩ := asked
      have hmapped : m.mapped s
          = (s.1.product w file inline).map fun output => (file, output.map) := by
        unfold Move.mapped
        rw [hcompile]
        rfl
      rw [(apply_of_compile? hcompile).2, Register.sourceMap, Register.maps_compile, hmapped]
      cases s.1.product w file inline with
      | none =>
          rw [Option.map_none, Option.toList_none, List.append_nil]
          exact h path
      | some output =>
          rw [Option.map_some, Option.toList_some, lastMap_append]
          by_cases hfile : file.components = path.components
          · rw [if_pos hfile]
            unfold SourceMaps.retrieve
            rw [← hfile]
            exact SourceMaps.retrieve_register ..
          · rw [if_neg hfile, SourceMaps.retrieve_register_of_ne _ hfile]
            exact h path

theorem mapped_run (moves : List Move) :
    ∀ {s : State} {past : List (FilePath × Option Json)}, Mapped past s →
      Mapped (past ++ mapped s moves) (run s moves) := by
  induction moves with
  | nil =>
      intro s past h
      rw [mapped, List.append_nil]
      exact h
  | cons m rest ih =>
      intro s past h
      rw [mapped, ← List.append_assoc]
      exact ih (mapped_apply h m)

-- =========================================================== main statement

/-- For every run of a register over a host's table, at every file that is
loaded through a hooked extension, with success. If the filter accepts the
file, the module was handed the code of one output, of which it is known where
it comes from, and the source map that is found for the file is the map of that
output. If the filter ignores it, the map that is found is the one that the
file had when it was compiled last, which need not be what the module received;
there is none exactly if the file was never compiled or had no map then. -/
theorem sourceMap_of_load (w : World) (T : ExtensionTable HostLoader) (engine : Engine) (n : Nat)
    (env : Environment) (workingDirectory : FilePath) (moves : List Move)
    (hwaiting : Awaits (fun _ => True) w) (path : FilePath) (inline : Option String)
    (hhooked : ExtensionTable.extensionOf path ∈
      (run (Register.create w (hosted T) engine n env workingDirectory)
        moves).1.hookedExtensions) {handover : Handover}
    (hloaded :
      let s := run (Register.create w (hosted T) engine n env workingDirectory) moves
      (s.1.load s.2 path inline).result = .ok handover) :
    let begun := Register.create w (hosted T) engine n env workingDirectory
    let s := run begun moves
    let found := (s.1.load s.2 path inline).register.sourceMap path
    (s.1.config.filter.accepts path = true →
      ∃ output, s.1.product s.2 path inline = some output ∧
        Descends (w.store n).entries (recordings begun moves) s.1 s.2 path inline output ∧
        handover = ⟨path, output.code⟩ ∧ found = output.map) ∧
    (s.1.config.filter.ignores path = true →
      found = lastMap path (mapped begun moves) ∧
        ownCode T s.2.disk path inline = .ok handover.code) := by
  intro begun s found
  obtain ⟨wanted, hover⟩ : ∃ wanted, Register.Over (hosted T) wanted s.1 :=
    over_run ⟨_, Register.over_create w (hosted T) engine n env workingDirectory⟩ moves
  obtain ⟨delegate, hloader, hdelegate⟩ := delegate_eq hover hhooked inline
  have hload : (s.1.load s.2 path inline).result = .ok handover := hloaded
  refine ⟨fun haccepts => ?_, fun hignores => ?_⟩
  · have hcompiles : compiles s.1 path = true := by
      unfold compiles
      rw [hloader]
      exact haccepts
    obtain ⟨hresult, hregister, -, -⟩ := load_eq_compile hcompiles s.2 inline
    rw [hresult] at hload
    obtain ⟨code, hcode, rfl⟩ := map_eq_ok.1 hload
    obtain ⟨output, hproduct, rfl, hmaps⟩ := Register.compile_of_ok hcode
    have haccount : Accounted (w.store n).entries (recordings begun moves) s :=
      accounted_run moves (accounted_create w (hosted T) engine n env workingDirectory hwaiting)
    refine ⟨output, hproduct, haccount.descends hproduct, rfl, ?_⟩
    show (s.1.load s.2 path inline).register.sourceMap path = _
    rw [hregister, hmaps]
    exact SourceMaps.retrieve_register ..
  · have hpassed : s.1.load s.2 path inline
        = ⟨Handover.mk path <$> ownCode T s.2.disk path inline, s.1,
          s.2.send (s.1.config.trace ("ignoring " ++ path.text))⟩ := by
      unfold Register.load
      rw [hloader]
      simp only
      rw [Register.loadWith, if_pos hignores, hdelegate]
      rfl
    have hbegun : Mapped [] begun := fun _ => rfl
    have hmapped : Mapped (mapped begun moves) s := mapped_run moves hbegun
    rw [hpassed] at hload
    obtain ⟨code, hcode, rfl⟩ := map_eq_ok.1 hload
    refine ⟨?_, hcode⟩
    show (s.1.load s.2 path inline).register.sourceMap path = _
    rw [hpassed]
    exact hmapped path

-- --------------------------------------------------- compiled, then ignored

/-- An engine that makes a source map for a script that asks for one. -/
def mapping : Engine where
  version := "1"
  extensions := [".js"]
  transform text _ := .ok ⟨"made of " ++ text, if text = "a" then some (.string "map of a") else none⟩

/-- A register of it over one file. -/
def mappingBegun : State := Register.create Teardown.oneScript (hosted ∅) mapping 0 {} ⟨"/"⟩

/-- A file is loaded, and then written over by a text without a map. -/
def remapped : List Move :=
  [.load ⟨"/a.js"⟩ none, .edit (.put ⟨"/a.js"⟩ (Utf8.encode "b") 6000)]

/-- The general statement for a file that had a map before: the map is gone. -/
theorem sourceMap_of_load_remapped :
    Awaits (fun _ => True) Teardown.oneScript ∧
      let s := run mappingBegun remapped
      ExtensionTable.extensionOf ⟨"/a.js"⟩ ∈ s.1.hookedExtensions ∧
      (s.1.sourceMap ⟨"/a.js"⟩).isSome = true ∧
      (s.1.load s.2 ⟨"/a.js"⟩ none).result = .ok ⟨⟨"/a.js"⟩, "made of b"⟩ ∧
      (s.1.load s.2 ⟨"/a.js"⟩ none).register.sourceMap ⟨"/a.js"⟩ = none := by
  have hwaiting : Awaits (fun _ => True) Teardown.oneScript := fun _ ht => by cases ht
  have hhooked : ExtensionTable.extensionOf ⟨"/a.js"⟩ ∈
      (run mappingBegun remapped).1.hookedExtensions := by decide +kernel
  have hloaded : ((run mappingBegun remapped).1.load (run mappingBegun remapped).2
      ⟨"/a.js"⟩ none).result = .ok ⟨⟨"/a.js"⟩, "made of b"⟩ := toOption_eq_some.1 (by decide +kernel)
  obtain ⟨hcompiled, -⟩ := sourceMap_of_load Teardown.oneScript ∅ mapping 0 {} ⟨"/"⟩ remapped
    hwaiting ⟨"/a.js"⟩ none hhooked hloaded
  obtain ⟨output, houtput, -, -, hfound⟩ := hcompiled (by decide +kernel)
  have hproduct : (run mappingBegun remapped).1.product (run mappingBegun remapped).2
      ⟨"/a.js"⟩ none = some output := houtput
  have hmapless : (((run mappingBegun remapped).1.product (run mappingBegun remapped).2
      ⟨"/a.js"⟩ none).bind (·.map)) = none := Option.isNone_iff_eq_none.1 (by decide +kernel)
  rw [hproduct] at hmapless
  exact ⟨hwaiting, hhooked, by decide +kernel, hloaded, hfound.trans hmapless⟩

/-- The file is loaded, and then to be ignored. -/
def unhanded : State :=
  run mappingBegun [.load ⟨"/a.js"⟩ none, .call (.configure { ignore := some ["/a.js"] })]

/-- A file that was compiled and is ignored by now is handed over as it is, and
the map is still found that it had when it was compiled. -/
theorem map_outlives_compile :
    ExtensionTable.extensionOf ⟨"/a.js"⟩ ∈ unhanded.1.hookedExtensions ∧
      unhanded.1.config.filter.ignores ⟨"/a.js"⟩ = true ∧
      (unhanded.1.load unhanded.2 ⟨"/a.js"⟩ none).result.toOption = some ⟨⟨"/a.js"⟩, "a"⟩ ∧
      (unhanded.1.load unhanded.2 ⟨"/a.js"⟩ none).world.invocations.length
        = unhanded.2.invocations.length ∧
      ((unhanded.1.load unhanded.2 ⟨"/a.js"⟩ none).register.sourceMap ⟨"/a.js"⟩).isSome
        = true := by
  decide +kernel

end Life

end TransformCache
