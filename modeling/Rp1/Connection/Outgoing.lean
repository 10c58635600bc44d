import Rp1.Connection.Task

/-!
# Connection — the outgoing stream

The bytes that the transport accepts from the driver.  A submission is written by one call of
`write_all`, which goes on after a short write where that write stopped: it hands over an initial
part of the frame, and all of it when it succeeds (`writeAll_accepts`).

`stream_whole` says what this makes of a run: the stream is the frames received, one after the
other.  Only the last may be missing a part, when its write failed or its id was refused, and then
the driver has left its loop.
-/

namespace Rp1.Connection
open Codec Protocol Loop Runs

/-! ### `write_all` -/

theorem writeAllFrom_accepts (bytes : Bytes) (offset : Nat) (writes : List Nat) :
    (writeAllFrom bytes offset writes).1 <+: bytes.drop offset ∧
      ((writeAllFrom bytes offset writes).2 = true →
        (writeAllFrom bytes offset writes).1 = bytes.drop offset) := by
  induction writes generalizing offset with
  | nil =>
      refine ⟨⟨_, List.nil_append _⟩, fun h => ?_⟩
      have hlen : ¬ offset < bytes.length := by simpa [writeAllFrom] using h
      exact (List.drop_eq_nil_of_le (Nat.not_lt.mp hlen)).symm
  | cons written writes ih =>
      by_cases hlen : offset < bytes.length
      · by_cases hzero : written = 0
        · simp only [writeAllFrom, if_pos hlen, if_pos hzero]
          exact ⟨⟨_, List.nil_append _⟩, fun h => nomatch h⟩
        · cases hnext : checkedAdd usizeMax offset written with
          | none =>
              simp only [writeAllFrom, if_pos hlen, if_neg hzero, hnext]
              exact ⟨⟨_, List.take_append_drop _ _⟩, fun h => nomatch h⟩
          | some next =>
              obtain ⟨-, rfl⟩ := checkedAdd_eq_some.mp hnext
              obtain ⟨hpart, hall⟩ := ih (offset + written)
              -- the next write starts where this one stopped
              have hsplit : bytes.drop offset =
                  (bytes.drop offset).take written ++ bytes.drop (offset + written) := by
                rw [← List.drop_drop, List.take_append_drop]
              simp only [writeAllFrom, if_pos hlen, if_neg hzero, hnext]
              refine ⟨?_, fun h => ?_⟩
              · conv_rhs => rw [hsplit]
                exact (List.prefix_append_right_inj _).mpr hpart
              · rw [hall h, ← hsplit]
      · simp only [writeAllFrom, if_neg hlen]
        refine ⟨⟨_, List.nil_append _⟩, fun _ => ?_⟩
        exact (List.drop_eq_nil_of_le (Nat.not_lt.mp hlen)).symm

/-- **Short writes neither skip nor repeat a byte.** -/
theorem writeAll_accepts (writes : List Nat) (bytes : Bytes) :
    (writeAll writes bytes).1 <+: bytes ∧
      ((writeAll writes bytes).2 = true → (writeAll writes bytes).1 = bytes) :=
  writeAllFrom_accepts bytes 0 writes

/-! ### The stream of the driver -/

section Outgoing
variable {σ : Type}

/-- The bytes that the transport accepts in an effect. -/
def Effect.accepted : Effect σ → Bytes
  | .write bytes => bytes
  | .send .. | .mark _ | .closeAdmission | .shutdown _ => []

/-- The bytes that the transport accepts in the iterations so far. -/
def Driver.outgoing (d : Driver σ) : Bytes := d.log.flatMap Effect.accepted

variable {d : Driver σ}

theorem outgoing_emit (d : Driver σ) (effects : List (Effect σ)) :
    (d.emit effects).outgoing = d.outgoing ++ effects.flatMap Effect.accepted :=
  List.flatMap_append

theorem outgoing_failAll (d : Driver σ) (error : DriverError) :
    (d.failAll error).outgoing = d.outgoing := by
  have hsends : (d.waiting.map fun p => (.send p.1 p.2 (.error error) : Effect σ)).flatMap
      Effect.accepted = [] := by
    simp [List.flatMap_map, Effect.accepted]
  rw [Driver.outgoing, failAll_log, List.flatMap_append, hsends, List.append_nil, Driver.outgoing]

theorem outgoing_fail (d : Driver σ) (error : DriverError) (next : ConnectionState)
    (exit : DriverExit) : (d.fail error next exit).1.outgoing = d.outgoing := by
  rw [Driver.fail, outgoing_emit, outgoing_failAll]
  exact List.append_nil _

theorem outgoing_bottom (d : Driver σ) : d.bottom.1.outgoing = d.outgoing := by
  rw [Driver.bottom]
  split
  case isTrue => rfl
  case isFalse => rfl

theorem outgoing_drainFrames (limits : Limits) (d : Driver σ) :
    (drainFrames limits d).1.outgoing = d.outgoing := by
  refine (drainIteration_shrinks limits).run_invariant
    (I := fun d' => d'.outgoing = d.outgoing) (fun d' h => ?_) d rfl
  cases hr : drainIteration limits d' with
  | mk d'' flow =>
      cases round hr with
      | waits => exact h
      | fatal => exact h
      | unknown id total => exact h
      | resolves id total outcome sender hn hw =>
          show (d'.log ++ [Effect.send id sender outcome]).flatMap Effect.accepted = _
          rw [List.flatMap_append]
          exact (List.append_nil _).trans h

theorem outgoing_admitted (s : Submit σ) (live : InFlightRegistry) (writes : List Nat) :
    (d.admitted s live writes).outgoing = d.outgoing ++ (writeAll writes s.bytes).1 := by
  rw [Driver.admitted, outgoing_emit]
  exact congrArg (d.outgoing ++ ·) (List.append_nil _)

/-- The submission an event brings, with the answers of the transport to its write. -/
def Event.submissions : Event σ → List (Submit σ × List Nat)
  | .submit s writes => [(s, writes)]
  | .shutdown _ | .submitClosed | .readFailed | .read _ => []

/-- What an iteration on `e` adds to the stream. -/
inductive Streams (d : Driver σ) : Event σ → Driver σ × Flow Leave → Prop where
  | silent (e : Event σ) (r : Driver σ × Flow Leave) (he : e.submissions = [])
      (h : r.1.outgoing = d.outgoing) : Streams d e r
  | whole (s : Submit σ) (writes : List Nat) (r : Driver σ × Flow Leave)
      (h : r.1.outgoing = d.outgoing ++ s.bytes) : Streams d (.submit s writes) r
  | failed (s : Submit σ) (writes : List Nat) (r : Driver σ × Flow Leave)
      (hw : (writeAll writes s.bytes).2 = false)
      (h : r.1.outgoing = d.outgoing ++ (writeAll writes s.bytes).1)
      (hleft : r.2.result ≠ none) : Streams d (.submit s writes) r
  | refused (s : Submit σ) (writes : List Nat) (r : Driver σ × Flow Leave) (reason : RegistryError)
      (hi : d.live.insert s.id = .error reason) (h : r.1.outgoing = d.outgoing)
      (hleft : r.2.result ≠ none) : Streams d (.submit s writes) r

theorem iterate_submit_streams (limits : Limits) (d : Driver σ) (s : Submit σ)
    (writes : List Nat) :
    Streams d (.submit s writes) (iterate limits d (.submit s writes)) := by
  rw [iterate]
  cases hi : d.live.insert s.id with
  | error reason =>
      refine .refused s writes _ reason hi ?_ (Option.some_ne_none _)
      rw [outgoing_fail, outgoing_emit]
      exact List.append_nil _
  | ok live =>
      have hout := outgoing_admitted (d := d) s live writes
      by_cases hw : (writeAll writes s.bytes).2 = true
      · simp only [if_pos hw]
        refine .whole s writes _ ?_
        rw [(writeAll_accepts writes s.bytes).2 hw] at hout
        rw [outgoing_bottom]
        exact hout
      · simp only [if_neg hw]
        refine .failed s writes _ (Bool.not_eq_true _ ▸ hw) ?_ (Option.some_ne_none _)
        rw [outgoing_fail]
        exact hout

/-- Only a submission adds to the stream. -/
theorem outgoing_iterate (limits : Limits) (d : Driver σ) {e : Event σ} (he : e.submissions = []) :
    (iterate limits d e).1.outgoing = d.outgoing := by
  have hdrain : ∀ chunk, (drainFrames limits (d.receive chunk)).1.outgoing = d.outgoing :=
    fun chunk => outgoing_drainFrames limits (d.receive chunk)
  have hit := iteration limits d e
  generalize iterate limits d e = r at hit ⊢
  cases hit with
  | refused s writes => cases he
  | written s writes => cases he
  | writeFailed s writes => cases he
  | closed => exact (outgoing_emit _ _).trans ((List.append_nil _).trans (outgoing_failAll d _))
  | shutdownFailed =>
      exact (outgoing_emit _ _).trans ((List.append_nil _).trans (outgoing_failAll d _))
  | submitClosed => exact outgoing_bottom _
  | idle => exact outgoing_bottom _
  | lost => exact outgoing_fail d _ _ _
  | fatal chunk d' failure hd =>
      have hout := hdrain chunk
      rw [hd] at hout
      rw [outgoing_fail]
      exact hout
  | drained chunk d' hd =>
      have hout := hdrain chunk
      rw [hd] at hout
      rw [outgoing_bottom]
      exact hout

/-- **Every iteration** adds a whole frame, nothing, or a part of a frame before it leaves. -/
theorem iterate_streams (limits : Limits) (d : Driver σ) (e : Event σ) :
    Streams d e (iterate limits d e) := by
  cases e with
  | submit s writes => exact iterate_submit_streams limits d s writes
  | shutdown ok => exact .silent _ _ rfl (outgoing_iterate limits d rfl)
  | submitClosed => exact .silent _ _ rfl (outgoing_iterate limits d rfl)
  | readFailed => exact .silent _ _ rfl (outgoing_iterate limits d rfl)
  | read chunk => exact .silent _ _ rfl (outgoing_iterate limits d rfl)

/-! ### Runs -/

/-- The submissions a schedule lets the driver receive, with the answers to their writes. -/
def Action.submissions : Action σ → List (Submit σ × List Nat)
  | .select e => e.submissions
  | .perform | .other .. => []

/-- The submissions received in the steps `past`. -/
def received (past : List (World σ × Action σ)) : List (Submit σ × List Nat) :=
  past.flatMap fun p => p.2.submissions

theorem received_snoc (past : List (World σ × Action σ)) (w : World σ) (a : Action σ) :
    received (past ++ [(w, a)]) = received past ++ a.submissions := by
  rw [received, List.flatMap_append, List.flatMap_singleton, received]

/-- The frames of submissions, one after the other. -/
def frames (received : List (Submit σ × List Nat)) : Bytes := received.flatMap fun p => p.1.bytes

theorem frames_append (a b : List (Submit σ × List Nat)) : frames (a ++ b) = frames a ++ frames b :=
  List.flatMap_append

theorem frames_singleton (s : Submit σ) (writes : List Nat) : frames [(s, writes)] = s.bytes :=
  List.append_nil _

/-- The effects that the driver has performed so far. -/
def World.performed (w : World σ) : List (Effect σ) :=
  w.task.driver.log.take (w.task.driver.log.length - w.task.pending.length)

/-- The last submission is cut short, and the driver has left its loop: its write failed, or
nothing of it was written because its id was refused. -/
structure CutShort (past : List (World σ × Action σ)) (w : World σ)
    (earlier : List (Submit σ × List Nat)) (s : Submit σ) (writes : List Nat) (part : Bytes) :
    Prop where
  received : received past = earlier ++ [(s, writes)]
  outgoing : w.task.driver.outgoing = frames earlier ++ part
  isPart : part <+: s.bytes
  left : w.task.left ≠ none
  cause : (writeAll writes s.bytes).2 = false ∨ part = [] ∧ ∃ w' reason,
    (w', .select (.submit s writes)) ∈ past ∧
      w'.task.driver.live.insert s.id = .error reason

/-- What the stream is after the steps `past`. -/
structure World.Streamed (past : List (World σ × Action σ)) (w : World σ) : Prop where
  log : w.task.pending <:+ w.task.driver.log
  outgoing : w.task.driver.outgoing = frames (received past) ∨
    ∃ earlier s writes part, CutShort past w earlier s writes part

variable {limits : Limits} {past : List (World σ × Action σ)} {w w' : World σ}

/-- A step in which the driver begins no iteration adds nothing to the stream. -/
theorem World.Streamed.frame (h : w.Streamed past) {a : Action σ} (ha : a.submissions = [])
    (hd : w'.task.driver = w.task.driver) (hl : w'.task.left = w.task.left)
    (hp : w'.task.pending <:+ w'.task.driver.log) : w'.Streamed (past ++ [(w, a)]) := by
  have hpast : received (past ++ [(w, a)]) = received past := by
    rw [received_snoc, ha, List.append_nil]
  refine ⟨hp, ?_⟩
  rw [hd, hpast]
  rcases h.outgoing with hout | ⟨earlier, s, writes, part, hrec, hout, hpart, hleft, hcause⟩
  · exact .inl hout
  · refine .inr ⟨earlier, s, writes, part, hpast.trans hrec, hd ▸ hout, hpart, hl ▸ hleft, ?_⟩
    rcases hcause with hw | ⟨hnil, w₀, reason, hmem, hi⟩
    · exact .inl hw
    · exact .inr ⟨hnil, w₀, reason, List.mem_append_left _ hmem, hi⟩

/-- An iteration adds what `iterate_streams` says. -/
theorem World.Streamed.select (h : w.Streamed past) {e : Event σ} {task : Task σ}
    (hs : w.task.select limits e = some task) :
    World.Streamed (past ++ [(w, .select e)]) { w with task } := by
  obtain ⟨-, hopen, hd, hl, -⟩ := Task.select_eq_some hs
  obtain ⟨effects, tail, hlog, -, -⟩ := (iterate_ends limits w.task.driver e).log
  have hpend := Task.pending_of_select hs hlog
  -- the driver is in its loop, so no frame has been cut short
  have hout : w.task.driver.outgoing = frames (received past) := by
    rcases h.outgoing with hout | ⟨_, _, _, _, hcut⟩
    · exact hout
    · exact absurd hopen hcut.left
  have hpast := received_snoc past w (.select e)
  refine ⟨?_, ?_⟩
  · show task.pending <:+ task.driver.log
    rw [hpend, hd, hlog]
    exact ⟨_, rfl⟩
  · have hstream := iterate_streams limits w.task.driver e
    show task.driver.outgoing = _ ∨ _
    rw [hpast, hd]
    cases hstream with
    | silent e r he hr =>
        refine .inl ?_
        rw [hr, Action.submissions, he, List.append_nil, hout]
    | whole s writes r hr =>
        refine .inl ?_
        rw [hr, Action.submissions, Event.submissions, frames_append, frames_singleton, hout]
    | failed s writes r hw hr hleft =>
        refine .inr ⟨_, s, writes, _, hpast, ?_, (writeAll_accepts writes s.bytes).1, ?_, .inl hw⟩
        · exact (congrArg Driver.outgoing hd).trans (hr.trans (by rw [hout]))
        · exact hl ▸ hleft
    | refused s writes r reason hi hr hleft =>
        refine .inr ⟨_, s, writes, [], hpast, ?_, ⟨_, List.nil_append _⟩, ?_, .inr ⟨rfl, ?_⟩⟩
        · exact (congrArg Driver.outgoing hd).trans (hr.trans (by rw [hout, List.append_nil]))
        · exact hl ▸ hleft
        · exact ⟨w, reason, List.mem_append_right _ List.mem_cons_self, hi⟩

theorem World.Streamed.step (h : w.Streamed past) {a : Action σ}
    (hs : w.step limits a = some w') : w'.Streamed (past ++ [(w, a)]) := by
  cases a with
  | select e =>
      obtain ⟨task, ht, rfl⟩ := Option.map_eq_some_iff.mp hs
      exact h.select ht
  | other state closesAdmission =>
      cases hs
      exact h.frame rfl rfl rfl h.log
  | perform =>
      obtain ⟨⟨d, pending, left⟩, shared, marked⟩ := w
      cases pending with
      | nil => cases hs
      | cons x pending =>
          cases hs
          exact h.frame rfl rfl rfl ((List.suffix_cons x pending).trans h.log)

/-- Once the driver has left its loop nothing is added to the stream and nothing received. -/
theorem World.left_step (hleft : w.task.left ≠ none) {a : Action σ}
    (hs : w.step limits a = some w') :
    w'.task.left ≠ none ∧ w'.task.driver.outgoing = w.task.driver.outgoing ∧
      a.submissions = [] := by
  cases a with
  | select e =>
      obtain ⟨task, ht, rfl⟩ := Option.map_eq_some_iff.mp hs
      exact absurd (Task.select_eq_some ht).2.1 hleft
  | other state closesAdmission =>
      cases hs
      exact ⟨hleft, rfl, rfl⟩
  | perform =>
      obtain ⟨⟨d, pending, left⟩, shared, marked⟩ := w
      cases pending with
      | nil => cases hs
      | cons x pending =>
          cases hs
          exact ⟨hleft, rfl, rfl⟩

theorem World.left_exec (hleft : w.task.left ≠ none) {later : List (Action σ)}
    (h : exec (World.step limits) w later = some w') :
    w'.task.driver.outgoing = w.task.driver.outgoing ∧ later.flatMap Action.submissions = [] := by
  induction later generalizing w with
  | nil =>
      cases h
      exact ⟨rfl, rfl⟩
  | cons a later ih =>
      obtain ⟨w₁, h₁, h₂⟩ := exec_cons_eq_some.mp h
      obtain ⟨hleft', hout, ha⟩ := World.left_step hleft h₁
      obtain ⟨hout', hlater⟩ := ih hleft' h₂
      exact ⟨hout'.trans hout, by rw [List.flatMap_cons, ha, hlater, List.append_nil]⟩

/-- **The outgoing stream is whole frames.**  In every run of the driver, whatever the transport
answers to its writes: the stream is the frames of the submissions received, in their order, and
only the last may be cut short, when its write failed or, with nothing of it written, when its id
was refused.  What the driver has performed is an initial part of the stream, and all of it when
nothing is pending.  Once the driver has left its loop the stream does not change any more. -/
theorem stream_whole (limits : Limits) (shared : Shared) (schedule : List (Action σ))
    (w : World σ) (h : exec (World.step limits) (.spawn shared) schedule = some w) :
    (w.task.driver.outgoing = frames (schedule.flatMap Action.submissions) ∨
      ∃ earlier s writes part, schedule.flatMap Action.submissions = earlier ++ [(s, writes)] ∧
        w.task.driver.outgoing = frames earlier ++ part ∧ part <+: s.bytes ∧
        w.task.left ≠ none ∧
        ((writeAll writes s.bytes).2 = false ∨ part = [] ∧ ∃ w' reason,
          (w', .select (.submit s writes)) ∈ visited (World.step limits) (.spawn shared) schedule ∧
            w'.task.driver.live.insert s.id = .error reason)) ∧
    w.performed.flatMap Effect.accepted <+: w.task.driver.outgoing ∧
    (w.task.pending = [] → w.performed.flatMap Effect.accepted = w.task.driver.outgoing) ∧
    (w.task.left ≠ none → ∀ later w', exec (World.step limits) w later = some w' →
      w'.task.driver.outgoing = w.task.driver.outgoing ∧
        later.flatMap Action.submissions = []) := by
  have hinit : (World.spawn shared : World σ).Streamed [] := ⟨⟨[], rfl⟩, .inl rfl⟩
  have hstep : ∀ (past : List (World σ × Action σ)) (w : World σ) (a : Action σ) (w' : World σ),
      w.Streamed past → w.step limits a = some w' → w'.Streamed (past ++ [(w, a)]) :=
    fun _ _ _ _ hw hs => hw.step hs
  have hstream := exec_invariant hstep [] hinit h
  have hpast : received (visited (World.step limits) (.spawn shared) schedule) =
      schedule.flatMap Action.submissions := by
    rw [received, ← List.flatMap_map Prod.snd, map_snd_visited h]
  rw [List.nil_append] at hstream
  obtain ⟨⟨performed, hlog⟩, hout⟩ := hstream
  have hperf : w.performed = performed := by
    rw [World.performed, ← hlog, List.length_append, Nat.add_sub_cancel, List.take_left]
  refine ⟨?_, ?_, fun hp => ?_, fun hleft later w' hl => World.left_exec hleft hl⟩
  · rcases hout with hout | ⟨earlier, s, writes, part, hrec, hout, hpart, hleft, hcause⟩
    · exact .inl (hpast ▸ hout)
    · exact .inr ⟨earlier, s, writes, part, hpast ▸ hrec, hout, hpart, hleft, hcause⟩
  · rw [hperf, Driver.outgoing, ← hlog, List.flatMap_append]
    exact ⟨_, rfl⟩
  · rw [hperf, Driver.outgoing, ← hlog, hp, List.append_nil]

end Outgoing

/-- A frame in two short writes, and one whose write fails after its first byte. -/
theorem stream_whole_short :
    ∃ w : World Nat,
      exec (World.step ⟨64, 16⟩) (.spawn ⟨.usable, false⟩)
        [.select (.submit ⟨5, [1, 2, 3], 50⟩ [1, 2]), .perform,
          .select (.submit ⟨6, [4, 5], 60⟩ [1]), .perform, .perform, .perform, .perform,
          .perform] = some w ∧
      w.performed.flatMap Effect.accepted = w.task.driver.outgoing ∧
      w.task.driver.outgoing = [1, 2, 3, 4] := by
  let w : World Nat :=
    ⟨⟨⟨[], ∅, .new, false, [.write [1, 2, 3], .write [4], .send 6 60 (.error .transport),
      .send 5 50 (.error .transport), .mark .failed, .closeAdmission]⟩, [],
      some (.returned .failed)⟩, ⟨.failed, true⟩, some .failed⟩
  have h : exec (World.step ⟨64, 16⟩) (.spawn ⟨.usable, false⟩)
      [.select (.submit ⟨5, [1, 2, 3], 50⟩ [1, 2]), .perform,
        .select (.submit ⟨6, [4, 5], 60⟩ [1]), .perform, .perform, .perform, .perform,
        .perform] = some w := rfl
  obtain ⟨-, -, hall, -⟩ := stream_whole _ _ _ w h
  exact ⟨w, h, hall rfl, rfl⟩

/-- A second submission with an id that is still live: nothing of it is written, although no write
fails. -/
theorem refused_not_written :
    ∃ (schedule : List (Action Nat)) (w : World Nat),
      exec (World.step ⟨64, 16⟩) (.spawn ⟨.usable, false⟩) schedule = some w ∧
      w.task.returned = some (.returned .unusable) ∧
      ¬ (w.task.driver.outgoing = frames (schedule.flatMap Action.submissions) ∨
        ∃ earlier s writes part, schedule.flatMap Action.submissions = earlier ++ [(s, writes)] ∧
          w.task.driver.outgoing = frames earlier ++ part ∧ part <+: s.bytes ∧
          (writeAll writes s.bytes).2 = false) := by
  let w : World Nat :=
    ⟨⟨⟨[], ∅, .new, false, [.write [1, 2, 3], .send 5 60 (.error .unusable),
      .send 5 50 (.error .unusable), .mark .unusable, .closeAdmission]⟩, [],
      some (.returned .unusable)⟩, ⟨.unusable, true⟩, some .unusable⟩
  refine ⟨[.select (.submit ⟨5, [1, 2, 3], 50⟩ [3]), .perform,
    .select (.submit ⟨5, [4, 5], 60⟩ [2]), .perform, .perform, .perform, .perform], w, rfl, rfl, ?_⟩
  rintro (hall | ⟨earlier, s, writes, part, hrec, -, -, hfail⟩)
  · exact absurd hall (by decide)
  · -- the last submission is the second, and its write would succeed
    have hlast := congrArg List.getLast? hrec
    rw [List.getLast?_concat] at hlast
    cases hlast
    exact absurd hfail (by decide)

end Rp1.Connection
