/-
A compile that fails leaves nothing behind.

A compile can fail before the store is asked, when the file's key and stamp are
taken, and when the engine is called; what it found in the store before does
not matter. In each case it has filed nothing and left the source maps as they
were (`deed_of_error`), so that all it leaves are the messages that it sent and
the account of the call that came to nothing. The same is true of a load that
fails, whether its file was to be compiled or not.

Nothing that a register does depends on those (`Same.apply`). So a run goes on
after a failure as it would have without it, and failures can be taken out of a
run without any other answer being changed (`log_remaining`).
-/
import TransformCache.Proofs.Register.Persistence

namespace TransformCache

namespace Register

variable {r : Register} {v w : World} {path : FilePath} {inline : Option String} {e : Error}

-- ============================================================= one failure

theorem deedOfCall_of_error {messages : List Message} {options : EngineOptions}
    {ticket : Option Ticket}
    (h : (r.deedOfCall w path inline messages options ticket).result = .error e) :
    (r.deedOfCall w path inline messages options ticket).maps = r.maps ∧
      (r.deedOfCall w path inline messages options ticket).filed = none := by
  unfold deedOfCall at h ⊢
  simp only at h ⊢
  cases hmade : (r.engine.invoke w.disk options path inline).1 with
  | error reason => exact ⟨rfl, rfl⟩
  | ok output =>
      rw [hmade] at h
      cases h

/-- What fails has filed nothing, and left the source maps as they were. -/
theorem deed_of_error (h : (r.deed w path inline).result = .error e) :
    (r.deed w path inline).maps = r.maps ∧ (r.deed w path inline).filed = none := by
  unfold deed at h ⊢
  cases hconsult : r.consult w path with
  | error reason => exact ⟨rfl, rfl⟩
  | ok consultation =>
      rw [hconsult] at h
      cases consultation with
      | answered entry => cases h
      | unanswered options ticket stale => exact deedOfCall_of_error h

/-- A compile that fails has sent messages and may have called the engine. -/
theorem compile_of_error (h : (r.compile w path inline).result = .error e) :
    ∃ messages calls, r.compile w path inline = ⟨.error e, r, told w messages calls⟩ := by
  rw [compile_eq] at h ⊢
  obtain ⟨hmaps, hfiled⟩ := deed_of_error h
  refine ⟨(r.deed w path inline).messages, (r.deed w path inline).calls, ?_⟩
  unfold Deed.outcome at h ⊢
  simp only at h
  rw [hfiled, h, hmaps]

/-- A compile does the same wherever the same stores and tasks are. -/
theorem compile_congr (h : v.session = w.session) (path : FilePath) (inline : Option String) :
    (r.compile v path inline).result = (r.compile w path inline).result ∧
      (r.compile v path inline).register = (r.compile w path inline).register ∧
      (r.compile v path inline).world.session = (r.compile w path inline).world.session := by
  have hdisk : v.disk = w.disk := congrArg (·.host.disk) h
  have hstore : v.store r.store = w.store r.store := congrArg (·.host.stores r.store) h
  have hdeed : r.deed v path inline = r.deed w path inline :=
    deed_congr ⟨by rw [hdisk], by rw [hdisk], by rw [hstore], by rw [hstore]⟩ inline
  rw [compile_eq, compile_eq, hdeed]
  refine ⟨rfl, rfl, ?_⟩
  rw [session_outcome, session_outcome]
  cases (r.deed w path inline).filed with
  | none => exact h
  | some rec => exact session_file h rec.ticket rec.output

end Register

namespace Life

open Teardown (Call State)

variable {s s' : State} {m : Move} {moves : List Move}

/-- Two states that differ in no more than what was said and which calls of the
engine were made. -/
structure Same (s s' : State) : Prop where
  register : s.1 = s'.1
  session : s.2.session = s'.2.session

theorem Same.refl (s : State) : Same s s := ⟨rfl, rfl⟩

theorem Same.symm (h : Same s s') : Same s' s := ⟨h.register.symm, h.session.symm⟩

theorem Same.trans {t : State} (h : Same s s') (h' : Same s' t) : Same s t :=
  ⟨h.register.trans h'.register, h.session.trans h'.session⟩

/-- True for a file that was not compiled, or not loaded. -/
def Reply.failed : Reply → Bool
  | .compiled (.error _) => true
  | .loaded (.error _) => true
  | _ => false

/-- A compile or a load that fails leaves a register, its stores, the tasks that
wait and the disk as they were. -/
theorem same_of_failed (h : (m.reply s).failed = true) : Same (m.apply s) s := by
  cases m with
  | call c =>
      cases c with
      | compile path inline =>
          cases hresult : (s.1.compile s.2 path inline).result with
          | ok code =>
              simp only [Move.reply, hresult] at h
              cases h
          | error e =>
              obtain ⟨messages, calls, hcompile⟩ := Register.compile_of_error hresult
              simp only [Move.apply, Call.apply, hcompile]
              exact ⟨rfl, rfl⟩
      | _ => cases h
  | load path inline =>
      cases hcompiles : compiles s.1 path with
      | false =>
          obtain ⟨messages, hload⟩ := load_of_not_compiles hcompiles inline
          simp only [Move.apply, hload]
          exact ⟨rfl, rfl⟩
      | true =>
          have hload := load_of_compiles hcompiles s.2 inline
          cases hresult : (s.1.compile (announced s.1 s.2 path) path inline).result with
          | ok code =>
              simp only [Move.reply, hload, hresult] at h
              cases h
          | error e =>
              obtain ⟨messages, calls, hcompile⟩ := Register.compile_of_error hresult
              simp only [Move.apply, hload, hcompile]
              exact ⟨rfl, rfl⟩
  | _ => cases h

-- ========================================================= what comes after

/-- A move does the same in states that are the same. -/
theorem Same.apply (h : Same s s') (m : Move) :
    m.reply s = m.reply s' ∧ Same (m.apply s) (m.apply s') := by
  obtain ⟨r, v⟩ := s
  obtain ⟨r', w⟩ := s'
  obtain ⟨hregister, hsession⟩ := h
  obtain rfl : r = r' := hregister
  have hhost : v.session.host = w.session.host := congrArg (·.host) hsession
  have hshelf : ∀ f : Cache.Shelf → Cache.Shelf, (v.onShelf f).session = (w.onShelf f).session :=
    fun f => by unfold World.onShelf; rw [show v.session = w.session from hsession]
  cases m with
  | call c =>
      cases c with
      | configure options =>
          obtain ⟨result, register, messages, off, -, hconfigure⟩ := configure_eq r options
          simp only [Move.reply, Move.apply, Call.apply, hconfigure]
          cases off with
          | true =>
              exact ⟨trivial, rfl, hshelf fun x => x.setStore r.store (x.stores r.store).disable⟩
          | false => exact ⟨trivial, rfl, hsession⟩
      | hook extensions => exact ⟨rfl, rfl, hsession⟩
      | compile path inline =>
          obtain ⟨hresult, hregister, hafter⟩ := Register.compile_congr hsession path inline
          exact ⟨congrArg Reply.compiled hresult, hregister, hafter⟩
      | tearDown =>
          obtain ⟨register, htearDown⟩ := tearDown_eq r
          simp only [Move.reply, Move.apply, Call.apply, htearDown]
          cases r.tornDown with
          | true => exact ⟨trivial, rfl, hsession⟩
          | false => exact ⟨trivial, rfl, hshelf _⟩
      | turn queue => exact ⟨rfl, rfl, congrArg (Cache.Session.perform · _) hsession⟩
  | load path inline =>
      cases hcompiles : compiles r path with
      | false =>
          obtain ⟨messages, hload⟩ := load_of_not_compiles hcompiles inline
          have hdisk : v.disk = w.disk := congrArg (·.host.disk) hsession
          simp only [Move.reply, Move.apply, hload, hdisk]
          exact ⟨trivial, rfl, hsession⟩
      | true =>
          obtain ⟨hresult, hregister, hafter⟩ :=
            Register.compile_congr (v := announced r v path) (w := announced r w path) hsession
              path inline
          obtain ⟨hhanded, hleft, hworld⟩ :
              (r.load v path inline).result = (r.load w path inline).result ∧
              (r.load v path inline).register = (r.load w path inline).register ∧
              (r.load v path inline).world.session = (r.load w path inline).world.session := by
            rw [load_of_compiles hcompiles, load_of_compiles hcompiles]
            exact ⟨congrArg (Handover.mk path <$> ·) hresult, hregister, hafter⟩
          exact ⟨congrArg Reply.loaded hhanded, hleft, hworld⟩
  | drain queue => exact ⟨rfl, rfl, congrArg (Cache.Session.perform · _) hsession⟩
  | edit change => exact ⟨rfl, rfl, hshelf _⟩
  | flush => exact ⟨rfl, rfl, hshelf _⟩
  | mishap place e => exact ⟨rfl, rfl, hshelf _⟩
  | limit bytes => exact ⟨rfl, rfl, hshelf _⟩

/-- The moves of a run, each with what it answers. -/
def log (s : State) : List Move → List (Move × Reply)
  | [] => []
  | m :: rest => (m, m.reply s) :: log (m.apply s) rest

/-- A run is the same in states that are the same. -/
theorem Same.run (moves : List Move) :
    ∀ {s s'}, Same s s' → log s moves = log s' moves ∧ Same (run s moves) (run s' moves) := by
  induction moves with
  | nil => exact fun h => ⟨rfl, h⟩
  | cons m rest ih =>
      intro s s' h
      obtain ⟨hreply, hafter⟩ := h.apply m
      obtain ⟨hlog, hend⟩ := ih hafter
      refine ⟨?_, hend⟩
      rw [log, log, hreply, hlog]

/-- The moves of a run, without those failures that are to be left out. -/
def remaining (out : Move → Bool) (s : State) (moves : List Move) : List (Move × Reply) :=
  (log s moves).filter fun entry => !(entry.2.failed && out entry.1)

/-- Without failures a run answers as it did, and ends the same. -/
theorem log_remaining (out : Move → Bool) (moves : List Move) :
    ∀ s, log s ((remaining out s moves).map (·.1)) = remaining out s moves ∧
      Same (run s ((remaining out s moves).map (·.1))) (run s moves) := by
  induction moves with
  | nil => exact fun s => ⟨rfl, .refl s⟩
  | cons m rest ih =>
      intro s
      obtain ⟨hlog, hend⟩ := ih (m.apply s)
      cases hout : (m.reply s).failed && out m with
      | true =>
          have hremaining : remaining out s (m :: rest) = remaining out (m.apply s) rest :=
            List.filter_cons_of_neg (by simp [hout])
          -- the rest of the run begins where the failure left nothing
          have hsame := same_of_failed (Bool.and_eq_true_iff.1 hout).1
          obtain ⟨hlog', hend'⟩ := hsame.symm.run ((remaining out (m.apply s) rest).map (·.1))
          rw [hremaining]
          exact ⟨hlog'.trans hlog, hend'.trans hend⟩
      | false =>
          have hremaining : remaining out s (m :: rest)
              = (m, m.reply s) :: remaining out (m.apply s) rest :=
            List.filter_cons_of_pos (by simp [hout])
          rw [hremaining, List.map_cons, log, hlog]
          exact ⟨rfl, hend⟩

-- ========================================================== main statement

/-- In whatever state a register is. A compile that answers with an error leaves
the register as it was — its configuration, hooks, table and source maps — and
its world, but for what was said and called: the entries, the marks, the tasks
that wait and the disk. And if from a run any compiles or loads that fail are
left out, all the others answer as they did, and the run ends the same. -/
theorem failures_leave_no_trace (s : State) :
    (∀ path inline e, (s.1.compile s.2 path inline).result = .error e →
      (s.1.compile s.2 path inline).register = s.1 ∧
        (s.1.compile s.2 path inline).world.session = s.2.session) ∧
    ∀ (out : Move → Bool) (moves : List Move),
      let without := (remaining out s moves).map (·.1)
      log s without = remaining out s moves ∧ Same (run s without) (run s moves) := by
  refine ⟨fun path inline e h => ?_, fun out moves => log_remaining out moves s⟩
  obtain ⟨messages, calls, hcompile⟩ := Register.compile_of_error h
  rw [hcompile]
  exact ⟨rfl, rfl⟩

-- ------------------------------------------------------- over a stale entry

/-- An engine that hands over the text of scripts, but not of all. -/
def picky : Engine where
  version := "1"
  extensions := [".js"]
  transform text request :=
    if text = "b" then .error (.rejected request.filename "no") else .ok ⟨text, none⟩

/-- A register of it over one file. -/
def picking : State := Register.create Teardown.oneScript ∅ picky 0 {} ⟨"/"⟩

/-- A file is compiled, and again after it was spoilt, after it was taken away,
and after it was put back. -/
def spoilt : List Move :=
  [.call (.compile ⟨"/a.js"⟩ none), .edit (.put ⟨"/a.js"⟩ (Utf8.encode "b") 6000),
    .call (.compile ⟨"/a.js"⟩ none), .edit (.remove ⟨"/a.js"⟩), .load ⟨"/a.js"⟩ none,
    .edit (.put ⟨"/a.js"⟩ (Utf8.encode "a") 5000), .call (.compile ⟨"/a.js"⟩ none)]

/-- The general statement for the engine's rejection of a file for which there is
an entry that is stale, and for the run with both failures left out. -/
theorem failures_leave_no_trace_spoilt :
    let before := run picking (spoilt.take 2)
    let refused := before.1.compile before.2 ⟨"/a.js"⟩ none
    (∃ e, refused.result = .error e) ∧ refused.register = before.1 ∧
      refused.world.session = before.2.session ∧
      let remaining := remaining (fun _ => true) picking spoilt
      remaining.length = 5 ∧ log picking (remaining.map (·.1)) = remaining := by
  intro before refused
  obtain ⟨e, he⟩ : ∃ e, refused.result = .error e := by
    cases hresult : refused.result with
    | error e => exact ⟨e, rfl⟩
    | ok code =>
        have hfails : refused.result.toBool = false := by decide +kernel
        rw [hresult] at hfails
        cases hfails
  obtain ⟨hregister, hsession⟩ := (failures_leave_no_trace before).1 ⟨"/a.js"⟩ none e he
  exact ⟨⟨e, he⟩, hregister, hsession, by decide +kernel,
    ((failures_leave_no_trace picking).2 (fun _ => true) spoilt).1⟩

end Life

end TransformCache
