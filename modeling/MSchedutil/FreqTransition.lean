import MSchedutil.FreqCache
import MSchedutil.FreqSystem

/-! One frequency transition in flight. The work-in-progress flag is the token of
the deferred work: it is set with the irq work and cleared by the worker, and while
it is set no update touches `next_freq`. -/

namespace MSchedutil

open Transition

variable {L : Type*} {resolve : L → Nat → Nat} {applyLimits : L → Nat → Option Nat}

/-- The hooks may run, or the work they queued has not been cancelled yet. -/
def Phase.Live : Phase → Prop
  | started | unhooked | synced => True
  | stopped | cancelled => False

/-- A lane against the `next_freq` and `work_in_progress` of its policy. -/
structure Lane.Ok (nextFreq : Nat) (wip : Bool) (l : Lane) : Prop where
  one : l.inFlight ≤ 1
  wip_of_inFlight : l.inFlight = 1 → wip = true
  inFlight_of_wip : l.phase.Live → wip = true → l.inFlight = 1
  irq_done : l.phase ≠ .started → l.phase ≠ .unhooked → l.irqPending = false
  work_done : l.phase = .cancelled → l.workQueued = false
  stopped : l.phase = .stopped → l.inFlight = 0
  log : FreqLog.targets l.log ++ (if l.Unread then [nextFreq] else []) = FreqLog.survivors l.log
  sane : uintMax ∉ FreqLog.survivors l.log

namespace Lane.Ok

variable {nextFreq : Nat} {wip : Bool} {l : Lane}

theorem new (nextFreq : Nat) (wip : Bool) : Lane.new.Ok nextFreq wip := by
  refine ⟨?_, ?_, ?_, ?_, ?_, ?_, ?_, ?_⟩ <;> simp [Lane.new, inFlight, Unread, Phase.Live,
    FreqLog.targets, FreqLog.survivors]

theorem empty_iff : l.inFlight = 0 ↔
    l.irqPending = false ∧ l.workQueued = false ∧ l.worker = .idle := by
  unfold inFlight
  by_cases hw : l.worker = .idle <;> simp [hw, Bool.toNat_eq_zero]

theorem not_unread_of_empty (h : l.inFlight = 0) : ¬ l.Unread := by
  obtain ⟨hi, hq, hw⟩ := empty_iff.mp h
  simp [Unread, hi, hq, hw]

theorem empty_of_idle (h : l.Ok nextFreq wip) (hw : wip = false) :
    l.inFlight = 0 := by
  have := h.one
  have hne : l.inFlight ≠ 1 := by
    intro h1
    rw [h.wip_of_inFlight h1] at hw
    cases hw
  omega

/-- While nothing is unread the policy may forget or change `next_freq`. -/
theorem congr (h : l.Ok nextFreq wip) {nextFreq' : Nat} (hn : l.Unread → nextFreq' = nextFreq) :
    l.Ok nextFreq' wip where
  one := h.one
  wip_of_inFlight := h.wip_of_inFlight
  inFlight_of_wip := h.inFlight_of_wip
  irq_done := h.irq_done
  work_done := h.work_done
  stopped := h.stopped
  log := by
    rw [← h.log]
    by_cases hu : l.Unread
    · rw [hn hu]
    · simp [hu]
  sane := h.sane

theorem start (h : l.Ok nextFreq wip) (hp : l.phase = .stopped) :
    { l with phase := .started }.Ok uintMax false := by
  have h0 := h.stopped hp
  have hu := not_unread_of_empty h0
  refine ⟨?_, ?_, ?_, ?_, ?_, ?_, ?_, h.sane⟩
  · exact h.one
  · intro h1
    exact absurd (h0.symm.trans h1) (by decide)
  · intro _ hf
    cases hf
  · intro hf
    exact absurd rfl hf
  · intro hf
    cases hf
  · intro hf
    cases hf
  · have hlog := h.log
    rw [if_neg hu] at hlog
    rw [if_neg (show ¬ Unread { l with phase := .started } from hu)]
    exact hlog

theorem queue (h : l.Ok nextFreq wip) (h0 : l.inFlight = 0) (hp : l.phase = .started) {freq : Nat}
    (hf : freq ≠ uintMax) : (l.queue freq).Ok freq true := by
  have hu := not_unread_of_empty h0
  have h1 : (l.queue freq).inFlight = 1 := by
    obtain ⟨-, hq, hw⟩ := empty_iff.mp h0
    simp [inFlight, Lane.queue, hq, hw]
  have hlog := h.log
  rw [if_neg hu, List.append_nil] at hlog
  refine ⟨h1.le, fun _ => rfl, fun _ _ => h1, ?_, ?_, ?_, ?_, ?_⟩
  · intro hs
    exact absurd hp hs
  · intro hs
    exact absurd (hp.symm.trans hs) (by decide)
  · intro hs
    exact absurd (hp.symm.trans hs) (by decide)
  · have hr : (l.queue freq).Unread := .inl rfl
    rw [if_pos hr]
    simp [Lane.queue, FreqLog.surviveStep, FreqLog.targets, ← hlog]
  · simp only [Lane.queue, FreqLog.survivors_concat, FreqLog.surviveStep, List.mem_append,
      List.mem_singleton, not_or]
    exact ⟨h.sane, hf.symm⟩

/-- A step that hands the item on to a place where it is still unread. -/
theorem handOn (h : l.Ok nextFreq wip) {l' : Lane} (hphase : l'.phase = l.phase)
    (hlog : l'.log = l.log) (hin : l'.inFlight = l.inFlight) (hu : l'.Unread ↔ l.Unread)
    (hirq : l'.irqPending = true → l.irqPending = true)
    (hwork : l'.workQueued = true → l.phase ≠ .cancelled) : l'.Ok nextFreq wip where
  one := hin ▸ h.one
  wip_of_inFlight h1 := h.wip_of_inFlight (hin ▸ h1)
  inFlight_of_wip hl hw := by
    rw [hin]
    exact h.inFlight_of_wip (hphase ▸ hl) hw
  irq_done h₁ h₂ := by
    have := h.irq_done (hphase ▸ h₁) (hphase ▸ h₂)
    cases hi : l'.irqPending
    · rfl
    · rw [hirq hi] at this
      cases this
  work_done hc := by
    cases hw : l'.workQueued
    · rfl
    · exact absurd (hphase ▸ hc) (hwork hw)
  stopped hs := hin ▸ h.stopped (hphase ▸ hs)
  log := by simpa only [hlog, hu] using h.log
  sane := hlog ▸ h.sane

theorem irqWork (h : l.Ok nextFreq wip) (hi : l.irqPending = true) :
    { l with irqPending := false, workQueued := true }.Ok nextFreq wip := by
  have hwork : l.workQueued = false := by
    have := h.one
    cases hw : l.workQueued
    · rfl
    · simp only [inFlight, hi, hw, Bool.toNat_true] at this
      omega
  refine h.handOn rfl rfl ?_ ?_ (fun hf => hi) ?_
  · simp [inFlight, hi, hwork]
  · simp [Unread, hi]
  · intro _ hc
    have := h.irq_done (by simp [hc]) (by simp [hc])
    rw [hi] at this
    cases this

theorem take (h : l.Ok nextFreq wip) (hw : l.workQueued = true) (hi : l.worker = .idle) :
    { l with workQueued := false, worker := .taken }.Ok nextFreq wip := by
  refine h.handOn rfl rfl ?_ ?_ (fun hf => hf) ?_
  · simp [inFlight, hw, hi]
  · simp [Unread, hw]
  · intro hf
    cases hf

theorem worker_alone (h : l.Ok nextFreq wip) (hw : l.worker ≠ .idle) :
    l.irqPending = false ∧ l.workQueued = false ∧ l.inFlight = 1 := by
  have := h.one
  unfold inFlight at this ⊢
  rw [if_neg hw] at this ⊢
  cases hi : l.irqPending <;> cases hq : l.workQueued <;> simp [hi, hq] at this ⊢

theorem target (h : l.Ok nextFreq wip) (ht : l.worker = .taken) :
    { l with worker := .targeted, log := l.log ++ [FreqLog.target nextFreq] }.Ok nextFreq wip := by
  obtain ⟨hi, hq, h1⟩ := h.worker_alone (by simp [ht])
  have hin : inFlight { l with
      worker := .targeted, log := l.log ++ [FreqLog.target nextFreq] } = 1 := by
    simp [inFlight, hi, hq]
  have hlog := h.log
  rw [if_pos (show l.Unread from .inr (.inr ht))] at hlog
  refine ⟨hin.le, fun _ => h.wip_of_inFlight h1, fun _ _ => hin, fun _ _ => hi, fun _ => hq, ?_, ?_, ?_⟩
  · intro hs
    exact absurd ((h.stopped hs).symm.trans h1) (by decide)
  · have hu : ¬ Unread { l with
        worker := .targeted, log := l.log ++ [FreqLog.target nextFreq] } := by
      simp [Unread, hi, hq]
    rw [if_neg hu]
    simpa [FreqLog.surviveStep, FreqLog.targets] using hlog
  · simpa [FreqLog.surviveStep] using h.sane

theorem clear (h : l.Ok nextFreq wip) (ht : l.worker = .targeted) :
    { l with worker := .idle }.Ok nextFreq false := by
  obtain ⟨hi, hq, h1⟩ := h.worker_alone (by simp [ht])
  have hin : inFlight { l with worker := .idle } = 0 := by simp [inFlight, hi, hq]
  have hlog := h.log
  rw [if_neg (show ¬ l.Unread by simp [Unread, hi, hq, ht])] at hlog
  refine ⟨by omega, ?_, ?_, fun _ _ => hi, fun _ => hq, fun _ => hin, ?_, h.sane⟩
  · intro hf
    omega
  · intro _ hf
    cases hf
  · rw [if_neg (not_unread_of_empty hin)]
    exact hlog

theorem advance (h : l.Ok nextFreq wip) {phase : Phase} (hl : phase.Live → l.phase.Live)
    (hirq : phase ≠ .started → phase ≠ .unhooked → l.irqPending = false)
    (hwork : phase = .cancelled → l.workQueued = false)
    (hstop : phase = .stopped → l.inFlight = 0) : { l with phase := phase }.Ok nextFreq wip where
  one := h.one
  wip_of_inFlight := h.wip_of_inFlight
  inFlight_of_wip hp := h.inFlight_of_wip (hl hp)
  irq_done := hirq
  work_done := hwork
  stopped := hstop
  log := h.log
  sane := h.sane

theorem cancelWork (h : l.Ok nextFreq wip) (hp : l.phase = .synced) :
    { l with
      phase := .cancelled
      workQueued := false
      log := if l.workQueued then l.log ++ [FreqLog.cancel] else l.log }.Ok nextFreq wip := by
  have hi := h.irq_done (by simp [hp]) (by simp [hp])
  cases hq : l.workQueued with
  | false =>
    have hsame : { l with
      phase := .cancelled
      workQueued := false
      log := if false then l.log ++ [FreqLog.cancel] else l.log } =
        { l with phase := Phase.cancelled } := by
      cases l
      simp_all
    rw [hsame]
    exact h.advance (fun hf => hf.elim) (fun _ _ => hi) (fun _ => hq) (fun hf => by cases hf)
  | true =>
    have hidle : l.worker = .idle := by
      by_contra hne
      rw [(h.worker_alone hne).2.1] at hq
      cases hq
    have hin : inFlight { l with
        phase := .cancelled, workQueued := false, log := l.log ++ [FreqLog.cancel] } = 0 := by
      simp [inFlight, hi, hidle]
    have hlog := h.log
    rw [if_pos (show l.Unread from .inr (.inl hq))] at hlog
    simp only [if_true]
    refine ⟨by omega, ?_, fun hf => hf.elim, fun _ _ => hi, fun _ => rfl, ?_, ?_, ?_⟩
    · intro hf
      omega
    · intro hf
      cases hf
    · rw [if_neg (not_unread_of_empty hin)]
      simp [FreqLog.surviveStep, FreqLog.targets, ← hlog]
    · simp only [FreqLog.survivors_concat, FreqLog.surviveStep]
      exact fun hm => h.sane (List.mem_of_mem_dropLast hm)

/-- The driver call that applies new limits has nothing to do with the deferred work. -/
theorem limits (h : l.Ok nextFreq wip) (asked : Option Nat) :
    { l with log := l.log ++ (asked.map FreqLog.limits).toList }.Ok nextFreq wip := by
  have hlog := h.log
  cases asked with
  | none =>
    simpa using h
  | some f =>
    refine ⟨h.one, h.wip_of_inFlight, h.inFlight_of_wip, h.irq_done, h.work_done, h.stopped, ?_, ?_⟩
    · show FreqLog.targets (l.log ++ [.limits f]) ++ (if l.Unread then [nextFreq] else []) =
        FreqLog.survivors (l.log ++ [.limits f])
      rw [FreqLog.targets_append, FreqLog.survivors_concat,
        show FreqLog.targets [.limits f] = [] from rfl, List.append_nil]
      exact hlog
    · simpa [FreqLog.surviveStep] using h.sane

end Lane.Ok

/-- The parts of a policy no update touches. -/
structure SugovPolicy.SameSetup (sg sg' : SugovPolicy L) : Prop where
  cpus : sg'.policy.cpus = sg.policy.cpus
  fastSwitch : sg'.policy.fastSwitchEnabled = sg.policy.fastSwitchEnabled

theorem SugovPolicy.SameSetup.refl (sg : SugovPolicy L) : sg.SameSetup sg := ⟨rfl, rfl⟩

theorem sameSetup_updateCommit (sg : SugovPolicy L) (time f : Nat) :
    sg.SameSetup (sugovUpdateCommit sg time f).1 := by
  unfold sugovUpdateCommit
  split
  · exact .refl sg
  · split
    · exact .refl sg
    · dsimp only
      split
      · split <;> exact ⟨rfl, rfl⟩
      · exact ⟨rfl, rfl⟩

theorem cachedOrResolved_policy (resolve : L → Nat → Nat) (sg : SugovPolicy L) (raw : Nat) :
    (cachedOrResolved resolve sg raw).2.2.policy = sg.policy := by
  unfold cachedOrResolved
  split <;> rfl

theorem cachedOrResolved_workInProgress (resolve : L → Nat → Nat) (sg : SugovPolicy L) (raw : Nat) :
    (cachedOrResolved resolve sg raw).2.2.workInProgress = sg.workInProgress := by
  unfold cachedOrResolved
  split <;> rfl

namespace Request

theorem sameSetup_admitted (resolve : L → Nat → Nat) (time p : Nat) (sg : SugovPolicy L)
    (req : Request) : sg.SameSetup (req.admitted resolve time p sg).sg := by
  cases req with
  | maximum => exact sameSetup_updateCommit _ _ _
  | fault => exact ⟨rfl, rfl⟩
  | evaluated raw hold =>
    have h := sameSetup_updateCommit (cachedOrResolved resolve sg raw).2.2 time
      (if hold = true ∧ (cachedOrResolved resolve sg raw).2.1 <
          (cachedOrResolved resolve sg raw).2.2.nextFreq
        then (cachedOrResolved resolve sg raw).2.2.nextFreq
        else (cachedOrResolved resolve sg raw).2.1)
    have hpol := cachedOrResolved_policy resolve sg raw
    exact ⟨h.cpus.trans (by rw [hpol]), h.fastSwitch.trans (by rw [hpol])⟩

theorem sameSetup_serve (resolve : L → Nat → Nat) (time p : Nat) (sg : SugovPolicy L)
    (req : Request) : sg.SameSetup (req.serve resolve time p sg).sg := by
  have hpol := shouldUpdate_policy sg time
  unfold serve
  dsimp only
  split
  · have h := sameSetup_admitted resolve time p (sugovShouldUpdateFreq sg time).2 req
    exact ⟨h.cpus.trans (by rw [hpol]), h.fastSwitch.trans (by rw [hpol])⟩
  · exact ⟨by rw [hpol], by rw [hpol]⟩

/-- A grant on the slow path queues the irq work exactly when it sets the flag, and
never for the sentinel unless it was asked for. -/
theorem grant_slow (time f : Nat) (sg : SugovPolicy L)
    (hslow : sg.policy.fastSwitchEnabled = false) (hw : sg.workInProgress = false)
    (call : Option FreqCall) :
    ((grant time f sg call).queued = true ∧ (grant time f sg call).sg.workInProgress = true ∧
      (grant time f sg call).sg.nextFreq = f ∧ sg.nextFreq ≠ f) ∨
    ((grant time f sg call).queued = false ∧ (grant time f sg call).sg.workInProgress = false) := by
  rcases updateCommit_cases sg time f with ⟨hsg, hq, -⟩ | ⟨hf, hq, hwip, -, -, -, -, hne⟩
  · exact .inr ⟨hq, by simp [grant, hsg, hw]⟩
  · left
    refine ⟨?_, ?_, hf, hne⟩
    · simp [grant, hq, hslow]
    · simp [grant, hwip, hslow]

theorem admitted_slow (hres : ∀ l f, resolve l f < uintMax) (time p : Nat) (sg : SugovPolicy L)
    (hslow : sg.policy.fastSwitchEnabled = false) (hw : sg.workInProgress = false)
    (req : Request) :
    ((req.admitted resolve time p sg).queued = true ∧
      (req.admitted resolve time p sg).sg.workInProgress = true ∧
      (req.admitted resolve time p sg).sg.nextFreq ≠ uintMax) ∨
    ((req.admitted resolve time p sg).queued = false ∧
      (req.admitted resolve time p sg).sg.workInProgress = false) := by
  cases req with
  | maximum =>
    rcases grant_slow time sg.policy.maxFreq sg hslow hw none with ⟨hq, hwip, hf, -⟩ | h
    · exact .inl ⟨hq, hwip, by rw [admitted, hf]; exact sg.policy.maxFreq_lt.ne⟩
    · exact .inr h
  | fault => exact .inr ⟨rfl, hw⟩
  | evaluated raw hold =>
    have hpol := cachedOrResolved_policy resolve sg raw
    have hwip' := cachedOrResolved_workInProgress resolve sg raw
    simp only [admitted]
    rcases grant_slow time (if hold = true ∧ (cachedOrResolved resolve sg raw).2.1 <
          (cachedOrResolved resolve sg raw).2.2.nextFreq
        then (cachedOrResolved resolve sg raw).2.2.nextFreq
        else (cachedOrResolved resolve sg raw).2.1)
        (cachedOrResolved resolve sg raw).2.2 (by rw [hpol]; exact hslow)
        (by rw [hwip']; exact hw)
        (some ⟨p, raw, (cachedOrResolved resolve sg raw).1, (cachedOrResolved resolve sg raw).2.1⟩)
      with ⟨hq, hwip, hf, hne⟩ | h
    · refine .inl ⟨hq, hwip, ?_⟩
      rw [hf]
      -- a held or cached request asks for `next_freq` itself and commits nothing
      split at hne
      · exact absurd rfl hne
      · rename_i hhold
        rw [if_neg hhold]
        unfold cachedOrResolved at hne ⊢
        split at hne
        · exact absurd rfl hne
        · rename_i hcut
          rw [if_neg hcut]
          exact (hres _ _).ne
    · exact .inr h

theorem serve_slow (hres : ∀ l f, resolve l f < uintMax) (time p : Nat) {sg : SugovPolicy L}
    (hslow : sg.policy.fastSwitchEnabled = false) (req : Request) :
    ((req.serve resolve time p sg).queued = true ∧ sg.workInProgress = false ∧
      (req.serve resolve time p sg).sg.workInProgress = true ∧
      (req.serve resolve time p sg).sg.nextFreq ≠ uintMax) ∨
    ((req.serve resolve time p sg).queued = false ∧
      (req.serve resolve time p sg).sg.workInProgress = sg.workInProgress ∧
      (sg.workInProgress = true → (req.serve resolve time p sg).sg = sg)) := by
  unfold serve
  dsimp only
  rcases shouldUpdate_cases sg time with ⟨hu, hsg⟩ | ⟨hu, hw, hsg⟩
  · right
    simp [hu, hsg]
  · have hpol : (sugovShouldUpdateFreq sg time).2.policy = sg.policy := shouldUpdate_policy sg time
    have hwip : (sugovShouldUpdateFreq sg time).2.workInProgress = false := by rw [hsg]; exact hw
    rw [if_pos hu]
    rcases admitted_slow hres time p (sugovShouldUpdateFreq sg time).2
      (by rw [hpol]; exact hslow) hwip req with ⟨hq, hwip', hf⟩ | ⟨hq, hwip'⟩
    · exact .inl ⟨hq, hw, hwip', hf⟩
    · refine .inr ⟨hq, hwip'.trans hw.symm, fun hf => ?_⟩
      rw [hw] at hf
      cases hf

end Request

namespace FreqSys

def policy (s : FreqSys L) (p : Nat) : SugovPolicy L := s.gov.policies p

/-- The lane of `p` is sound, if `p` uses the slow path. -/
def LaneOk (s : FreqSys L) (p : Nat) : Prop :=
  (s.policy p).policy.fastSwitchEnabled = false →
    (s.lanes p).Ok (s.policy p).nextFreq (s.policy p).workInProgress

/-- What every reachable state keeps: a hook belongs to a started policy that lists
its CPU, the lanes are sound, and the policies switch the way they did in `g`. -/
structure Inv (g : Gov L) (s : FreqSys L) : Prop where
  fastSwitch : ∀ p, (s.policy p).policy.fastSwitchEnabled = (g.policies p).policy.fastSwitchEnabled
  hooked : ∀ cpu, s.gov.hooks cpu ≠ none → (s.lanes (s.gov.cpus cpu).sgPolicy).phase = .started ∧
    cpu ∈ (s.policy (s.gov.cpus cpu).sgPolicy).policy.cpus
  lanes : ∀ p, s.LaneOk p

theorem inv_boot {g : Gov L} (h : g.Unhooked) : Inv g (boot g) where
  fastSwitch _ := rfl
  hooked cpu hc := absurd (h cpu) hc
  lanes _ _ := .new _ _

@[simp] theorem setLane_lane (s : FreqSys L) (p : Nat) (l : Lane) : (s.setLane p l).lanes p = l := by
  simp [setLane]

theorem setLane_lane_of_ne (s : FreqSys L) {p q : Nat} (hq : q ≠ p) (l : Lane) :
    (s.setLane p l).lanes q = s.lanes q := Function.update_of_ne hq _ _

@[simp] theorem setLane_policy (s : FreqSys L) (p q : Nat) (l : Lane) :
    (s.setLane p l).policy q = s.policy q := rfl

@[simp] theorem setLane_gov (s : FreqSys L) (p : Nat) (l : Lane) : (s.setLane p l).gov = s.gov := rfl

/-- A step at policy `p`: elsewhere nothing moves. -/
structure StepAt (p : Nat) (s s' : FreqSys L) : Prop where
  setup : (s.policy p).SameSetup (s'.policy p)
  policies : ∀ q ≠ p, s'.policy q = s.policy q
  lanes : ∀ q ≠ p, s'.lanes q = s.lanes q

namespace StepAt

variable {p : Nat} {s s' : FreqSys L} {g : Gov L}

theorem cpus (h : StepAt p s s') (q : Nat) : (s'.policy q).policy.cpus = (s.policy q).policy.cpus := by
  by_cases hq : q = p
  · subst hq
    exact h.setup.cpus
  · rw [h.policies q hq]

theorem fastSwitch (h : StepAt p s s') (q : Nat) :
    (s'.policy q).policy.fastSwitchEnabled = (s.policy q).policy.fastSwitchEnabled := by
  by_cases hq : q = p
  · subst hq
    exact h.setup.fastSwitch
  · rw [h.policies q hq]

theorem laneOk (h : StepAt p s s') (hs : Inv g s) (hp : s'.LaneOk p) (q : Nat) : s'.LaneOk q := by
  by_cases hq : q = p
  · subst hq
    exact hp
  · unfold LaneOk
    rw [h.policies q hq, h.lanes q hq]
    exact hs.lanes q

/-- Hooks and wiring are kept and the policy stays in its phase, or had no hooks to lose. -/
theorem inv (h : StepAt p s s') (hs : Inv g s) (hhooks : s'.gov.hooks = s.gov.hooks)
    (hcpus : ∀ c, (s'.gov.cpus c).sgPolicy = (s.gov.cpus c).sgPolicy)
    (hphase : (s.lanes p).phase = .started → (s'.lanes p).phase = .started)
    (hp : s'.LaneOk p) : Inv g s' where
  fastSwitch q := (h.fastSwitch q).trans (hs.fastSwitch q)
  hooked cpu hc := by
    rw [hhooks] at hc
    obtain ⟨h₁, h₂⟩ := hs.hooked cpu hc
    rw [hcpus, h.cpus]
    refine ⟨?_, h₂⟩
    by_cases hq : (s.gov.cpus cpu).sgPolicy = p
    · rw [hq] at h₁ ⊢
      exact hphase h₁
    · rw [h.lanes _ hq]
      exact h₁
  lanes := h.laneOk hs hp

theorem setLane (s : FreqSys L) (p : Nat) (l : Lane) : StepAt p s (s.setLane p l) where
  setup := .refl _
  policies _ _ := rfl
  lanes _ hq := setLane_lane_of_ne s hq l

end StepAt

variable {g : Gov L}

theorem Inv.setLane {s : FreqSys L} (hs : Inv g s) {p : Nat} {l : Lane}
    (hphase : (s.lanes p).phase = .started → l.phase = .started)
    (hl : (s.lanes p).Ok (s.policy p).nextFreq (s.policy p).workInProgress →
      l.Ok (s.policy p).nextFreq (s.policy p).workInProgress) : Inv g (s.setLane p l) := by
  refine (StepAt.setLane s p l).inv hs rfl (fun _ => rfl) (by simpa using hphase) ?_
  intro hslow
  simpa using hl (hs.lanes p hslow)

theorem Inv.setPolicy {s : FreqSys L} (hs : Inv g s) (p : Nat) (sg : SugovPolicy L) (l : Lane)
    (hsetup : (s.policy p).SameSetup sg) (hphase : l.phase = (s.lanes p).phase)
    (hl : (s.lanes p).Ok (s.policy p).nextFreq (s.policy p).workInProgress →
      l.Ok sg.nextFreq sg.workInProgress) :
    Inv g ({ s with gov := s.gov.setPolicy p sg }.setLane p l) := by
  have hstep : StepAt p s ({ s with gov := s.gov.setPolicy p sg }.setLane p l) := by
    refine ⟨?_, fun q hq => ?_, fun q hq => ?_⟩
    · simpa [policy] using hsetup
    · simp [policy, Function.update_of_ne hq]
    · exact setLane_lane_of_ne _ hq _
  refine hstep.inv hs rfl (fun _ => rfl) (by simp [hphase]) ?_
  intro hslow
  have hold : (s.policy p).policy.fastSwitchEnabled = false := by
    rw [← hstep.fastSwitch]
    exact hslow
  simpa [policy] using hl (hs.lanes p hold)

theorem Inv.update (hres : ∀ l f, resolve l f < uintMax) {s : FreqSys L} (hs : Inv g s) (cpu : Nat)
    (env : Env) : Inv g (s.next resolve applyLimits (.update cpu env)) := by
  cases hh : s.gov.hooks cpu with
  | none =>
    have hsame : s.next resolve applyLimits (.update cpu env) = s := by
      simp [FreqSys.next, sugovUpdate, hh]
    rwa [hsame]
  | some shared =>
    have hserve := serves_update resolve env hh
    have hstarted := (hs.hooked cpu (by simp [hh])).1
    have hsetup : (s.policy (s.gov.cpus cpu).sgPolicy).SameSetup
        ((sugovUpdate resolve env cpu s.gov).gov.policies (s.gov.cpus cpu).sgPolicy) := by
      rw [hserve.sg]
      exact Request.sameSetup_serve _ _ _ _ _
    have hsg : (sugovUpdate resolve env cpu s.gov).gov.policies (s.gov.cpus cpu).sgPolicy =
      ((s.gov.request shared env cpu).serve resolve env.time (s.gov.cpus cpu).sgPolicy
        (s.policy (s.gov.cpus cpu).sgPolicy)).sg := hserve.sg
    have hqueued : (sugovUpdate resolve env cpu s.gov).queued =
      ((s.gov.request shared env cpu).serve resolve env.time (s.gov.cpus cpu).sgPolicy
        (s.policy (s.gov.cpus cpu).sgPolicy)).queued := hserve.queued
    cases hq : (sugovUpdate resolve env cpu s.gov).queued with
    | false =>
      have hstep : StepAt (s.gov.cpus cpu).sgPolicy s
          { s with gov := (sugovUpdate resolve env cpu s.gov).gov } :=
        ⟨hsetup, hserve.others, fun _ _ => rfl⟩
      simp only [FreqSys.next, hq, Bool.false_eq_true, if_false]
      refine hstep.inv hs hserve.wiring.hooks hserve.wiring.sgPolicy id fun hslow => ?_
      have hold : (s.policy (s.gov.cpus cpu).sgPolicy).policy.fastSwitchEnabled = false := by
        rw [← hstep.fastSwitch]
        exact hslow
      have hok := hs.lanes _ hold
      change (s.lanes _).Ok ((sugovUpdate resolve env cpu s.gov).gov.policies _).nextFreq
        ((sugovUpdate resolve env cpu s.gov).gov.policies _).workInProgress
      rw [hsg]
      rcases Request.serve_slow hres env.time (s.gov.cpus cpu).sgPolicy hold
        (s.gov.request shared env cpu) with ⟨hq', -⟩ | ⟨-, hwip, hkeep⟩
      · rw [← hqueued, hq] at hq'
        cases hq'
      · rw [hwip]
        refine hok.congr fun hu => ?_
        -- an item still to be read keeps the flag up, and with it the update out
        have hw : (s.policy (s.gov.cpus cpu).sgPolicy).workInProgress = true := by
          by_contra hne
          exact Lane.Ok.not_unread_of_empty (hok.empty_of_idle (by simpa using hne)) hu
        rw [hkeep hw]
    | true =>
      have hstep : StepAt (s.gov.cpus cpu).sgPolicy s
          ({ s with gov := (sugovUpdate resolve env cpu s.gov).gov }.setLane
            (s.gov.cpus cpu).sgPolicy ((s.lanes (s.gov.cpus cpu).sgPolicy).queue
              ((sugovUpdate resolve env cpu s.gov).gov.policies (s.gov.cpus cpu).sgPolicy).nextFreq)) :=
        ⟨hsetup, hserve.others, fun q hne => setLane_lane_of_ne _ hne _⟩
      simp only [FreqSys.next, hq, if_true]
      refine hstep.inv hs hserve.wiring.hooks hserve.wiring.sgPolicy ?_ fun hslow => ?_
      · rw [setLane_lane]
        exact id
      · have hold : (s.policy (s.gov.cpus cpu).sgPolicy).policy.fastSwitchEnabled = false := by
          rw [← hstep.fastSwitch]
          exact hslow
        have hok := hs.lanes _ hold
        rw [setLane_lane]
        change Lane.Ok ((sugovUpdate resolve env cpu s.gov).gov.policies _).nextFreq
          ((sugovUpdate resolve env cpu s.gov).gov.policies _).workInProgress _
        rw [hsg]
        rcases Request.serve_slow hres env.time (s.gov.cpus cpu).sgPolicy hold
          (s.gov.request shared env cpu) with ⟨-, hidle, hwip, hf⟩ | ⟨hq', -⟩
        · rw [hwip]
          exact hok.queue (hok.empty_of_idle hidle) hstarted hf
        · rw [← hqueued, hq] at hq'
          cases hq'

theorem Inv.start {s : FreqSys L} (hs : Inv g s) (p : Nat) : Inv g (s.next resolve applyLimits (.start p)) := by
  by_cases hp : (s.lanes p).phase = .stopped
  · simp only [FreqSys.next, hp, if_true]
    have hstep : StepAt p s ({ s with gov := sugovStart p s.gov }.setLane p
        { s.lanes p with phase := .started }) := by
      refine ⟨?_, fun q hq => ?_, fun q hq => ?_⟩
      · exact ⟨by simp [policy, sugovStart], by simp [policy, sugovStart]⟩
      · simp [policy, sugovStart, Function.update_of_ne hq]
      · exact setLane_lane_of_ne _ hq _
    refine ⟨fun q => (hstep.fastSwitch q).trans (hs.fastSwitch q), fun cpu hc => ?_,
      hstep.laneOk hs fun hslow => ?_⟩
    · rw [hstep.cpus]
      by_cases hcpu : cpu ∈ (s.policy p).policy.cpus
      · have hsg : ((sugovStart p s.gov).cpus cpu).sgPolicy = p :=
          congrArg SugovCpu.sgPolicy (if_pos hcpu)
        simp only [setLane_gov, hsg, setLane_lane, true_and]
        exact hcpu
      · have hcpus : (sugovStart p s.gov).cpus cpu = s.gov.cpus cpu := if_neg hcpu
        have hhook : (sugovStart p s.gov).hooks cpu = s.gov.hooks cpu := if_neg hcpu
        simp only [setLane_gov, hcpus, hhook] at hc ⊢
        obtain ⟨h₁, h₂⟩ := hs.hooked cpu hc
        refine ⟨?_, h₂⟩
        by_cases hq : (s.gov.cpus cpu).sgPolicy = p
        · rw [hq, setLane_lane]
        · rw [hstep.lanes _ hq]
          exact h₁
    · have hold : (s.policy p).policy.fastSwitchEnabled = false := by
        rw [← hstep.fastSwitch]
        exact hslow
      simpa [policy, sugovStart] using (hs.lanes p hold).start hp
  · simpa only [FreqSys.next, hp, if_false] using hs

theorem Inv.removeHooks {s : FreqSys L} (hs : Inv g s) (p : Nat) :
    Inv g (s.next resolve applyLimits (.removeHooks p)) := by
  by_cases hp : (s.lanes p).phase = .started
  · simp only [FreqSys.next, hp, if_true]
    have hstep : StepAt p s ({ s with gov := sugovStop p s.gov }.setLane p
        { s.lanes p with phase := .unhooked }) :=
      ⟨.refl _, fun _ _ => rfl, fun q hq => setLane_lane_of_ne _ hq _⟩
    refine ⟨fun q => (hstep.fastSwitch q).trans (hs.fastSwitch q), fun cpu hc => ?_,
      hstep.laneOk hs fun hslow => ?_⟩
    · have hcpu : cpu ∉ (s.policy p).policy.cpus := by
        intro hmem
        exact hc (if_pos hmem)
      have hhook : (sugovStop p s.gov).hooks cpu = s.gov.hooks cpu := if_neg hcpu
      simp only [setLane_gov, hhook] at hc
      obtain ⟨h₁, h₂⟩ := hs.hooked cpu hc
      -- a CPU that kept its hook belongs to another policy
      have hq : (s.gov.cpus cpu).sgPolicy ≠ p := by
        rintro hq
        rw [hq] at h₂
        exact hcpu h₂
      exact ⟨(congrArg Lane.phase (hstep.lanes _ hq)).trans h₁, h₂⟩
    · have hok := hs.lanes p hslow
      simp only [setLane_lane]
      exact hok.advance (fun _ => by rw [hp]; trivial) (fun _ h => absurd rfl h)
        (fun h => by cases h) (fun h => by cases h)
  · simpa only [FreqSys.next, hp, if_false] using hs

theorem Inv.next (hres : ∀ l f, resolve l f < uintMax) {s : FreqSys L} (hs : Inv g s)
    (e : FreqEvent L) : Inv g (s.next resolve applyLimits e) := by
  cases e with
  | start p => exact hs.start p
  | update cpu env => exact hs.update hres cpu env
  | irqWork p =>
    unfold FreqSys.next
    dsimp only
    split
    · rename_i hi
      exact hs.setLane id fun h => h.irqWork hi
    · exact hs
  | take p =>
    unfold FreqSys.next
    dsimp only
    split
    · rename_i hw
      exact hs.setLane id fun h => h.take hw.1 hw.2
    · exact hs
  | target p cur =>
    unfold FreqSys.next
    dsimp only
    split
    · rename_i ht
      exact hs.setPolicy p _ _ ⟨rfl, rfl⟩ rfl fun h => h.target ht
    · exact hs
  | clear p =>
    unfold FreqSys.next
    dsimp only
    split
    · rename_i ht
      exact hs.setPolicy p _ _ ⟨rfl, rfl⟩ rfl fun h => h.clear ht
    · exact hs
  | limits p limits cur => exact hs.setPolicy p _ _ ⟨rfl, rfl⟩ rfl fun h => h.limits _
  | removeHooks p => exact hs.removeHooks p
  | irqWorkSync p =>
    unfold FreqSys.next
    dsimp only
    split
    · rename_i hp
      refine hs.setLane ?_ fun h => h.advance (fun _ => by rw [hp.1]; trivial)
        (fun _ _ => hp.2) (fun h => by cases h) (fun h => by cases h)
      intro hf
      exact absurd (hf.symm.trans hp.1) (by decide)
    · exact hs
  | cancelWork p =>
    unfold FreqSys.next
    dsimp only
    split
    · rename_i hp
      refine hs.setLane ?_ fun h => h.cancelWork hp
      intro hf
      exact absurd (hf.symm.trans hp) (by decide)
    · exact hs
  | cancelDone p =>
    unfold FreqSys.next
    dsimp only
    split
    · rename_i hp
      refine hs.setLane ?_ fun h => ?_
      · intro hf
        exact absurd (hf.symm.trans hp.1) (by decide)
      · have hi := h.irq_done (by simp [hp.1]) (by simp [hp.1])
        exact h.advance (fun hf => hf.elim) (fun _ _ => hi) (fun hf => by cases hf)
          (fun _ => Lane.Ok.empty_iff.mpr ⟨hi, h.work_done hp.1, hp.2⟩)
    · exact hs

/-- An update lets a policy with work in progress alone, on the slow path. -/
theorem update_keeps_nextFreq (hres : ∀ l f, resolve l f < uintMax) {s : FreqSys L} (cpu : Nat)
    (env : Env) {p : Nat} (hslow : (s.policy p).policy.fastSwitchEnabled = false)
    (hw : (s.policy p).workInProgress = true) :
    ((s.next resolve applyLimits (.update cpu env)).policy p).nextFreq = (s.policy p).nextFreq := by
  have hgov : (s.next resolve applyLimits (.update cpu env)).policy p =
      (sugovUpdate resolve env cpu s.gov).gov.policies p := by
    unfold FreqSys.next
    dsimp only
    split <;> rfl
  rw [hgov]
  cases hh : s.gov.hooks cpu with
  | none => simp [sugovUpdate, hh, policy]
  | some shared =>
    have hserve := serves_update resolve env hh
    by_cases hp : p = (s.gov.cpus cpu).sgPolicy
    · subst hp
      rw [hserve.sg]
      rcases Request.serve_slow hres env.time (s.gov.cpus cpu).sgPolicy hslow
        (s.gov.request shared env cpu) with ⟨-, hidle, -⟩ | ⟨-, -, hkeep⟩
      · rw [hw] at hidle
        cases hidle
      · exact congrArg SugovPolicy.nextFreq (hkeep hw)
    · rw [hserve.others p hp, policy]

theorem setPolicy_nextFreq (g : Gov L) {q : Nat} (sg : SugovPolicy L)
    (h : sg.nextFreq = (g.policies q).nextFreq) (p : Nat) :
    ((g.setPolicy q sg).policies p).nextFreq = (g.policies p).nextFreq := by
  by_cases hp : p = q
  · subst hp
    simpa using h
  · simp [Function.update_of_ne hp]

/-- Until the worker is through or the policy starts afresh, `next_freq` stays. -/
theorem Inv.nextFreq_stable (hres : ∀ l f, resolve l f < uintMax) {s : FreqSys L} (hs : Inv g s)
    {p : Nat} (hslow : (s.policy p).policy.fastSwitchEnabled = false)
    (hw : (s.policy p).workInProgress = true) (e : FreqEvent L)
    (h : ((s.next resolve applyLimits e).policy p).workInProgress = true ∨ (s.lanes p).inFlight = 1) :
    ((s.next resolve applyLimits e).policy p).nextFreq = (s.policy p).nextFreq := by
  cases e with
  | update cpu env => exact update_keeps_nextFreq hres cpu env hslow hw
  | start q =>
    unfold FreqSys.next at h ⊢
    dsimp only at h ⊢
    split at h
    · rename_i hq
      rw [if_pos hq]
      by_cases hp : p = q
      · subst hp
        rcases h with h | h
        · simp [policy, sugovStart] at h
        · have h0 := (hs.lanes p hslow).stopped hq
          omega
      · simp [policy, sugovStart, Function.update_of_ne hp]
    · rename_i hq
      rw [if_neg hq]
  | target q cur =>
    unfold FreqSys.next
    dsimp only
    split
    · exact setPolicy_nextFreq s.gov { s.policy q with
        policy := { (s.policy q).policy with cur := cur } } rfl p
    · rfl
  | clear q =>
    unfold FreqSys.next
    dsimp only
    split
    · exact setPolicy_nextFreq s.gov { s.policy q with workInProgress := false } rfl p
    · rfl
  | limits q limits cur =>
    exact setPolicy_nextFreq s.gov { s.policy q with
      policy := { (s.policy q).policy with
        limits := limits, cur := s.limitsCur applyLimits q limits cur }
      needFreqUpdate := true } rfl p
  | irqWork q | take q | removeHooks q | irqWorkSync q | cancelWork q | cancelDone q =>
    unfold FreqSys.next
    dsimp only
    split <;> rfl

/-- A call that applies limits is the only other one that passes a target. -/
theorem limits_mem_next {s : FreqSys L} {e : FreqEvent L} {p f : Nat}
    (h : FreqLog.limits f ∈ ((s.next resolve applyLimits e).lanes p).log) :
    FreqLog.limits f ∈ (s.lanes p).log ∨ ∃ limits cur, applyLimits limits cur = some f := by
  have hset : ∀ (s' : FreqSys L) (q : Nat) (l : Lane),
      FreqLog.limits f ∈ ((s'.setLane q l).lanes p).log → s'.lanes = s.lanes →
      (FreqLog.limits f ∈ l.log → FreqLog.limits f ∈ (s.lanes q).log) →
      FreqLog.limits f ∈ (s.lanes p).log := by
    intro s' q l hf hs' hl
    by_cases hp : p = q
    · subst hp
      rw [setLane_lane] at hf
      exact hl hf
    · rwa [setLane_lane_of_ne _ hp, hs'] at hf
  cases e with
  | update cpu env =>
    left
    unfold FreqSys.next at h
    dsimp only at h
    split at h
    · exact hset _ _ _ h rfl fun hf => by simpa [Lane.queue] using hf
    · exact h
  | limits q limits cur =>
    unfold FreqSys.next at h
    dsimp only at h
    by_cases hp : p = q
    · subst hp
      rw [setLane_lane] at h
      rcases List.mem_append.mp h with hold | hnew
      · exact .inl hold
      · right
        unfold sugovLimitsTarget at hnew
        dsimp only at hnew
        split at hnew
        · simp at hnew
        · exact ⟨limits, (s.gov.policies p).policy.cur, by simpa using hnew⟩
    · left
      rwa [setLane_lane_of_ne _ hp] at h
  | cancelWork q =>
    left
    unfold FreqSys.next at h
    dsimp only at h
    split at h
    · refine hset _ _ _ h rfl fun hf => ?_
      dsimp only at hf
      split at hf
      · simpa using hf
      · exact hf
    · exact h
  | target q cur =>
    left
    unfold FreqSys.next at h
    dsimp only at h
    split at h
    · exact hset _ _ _ h rfl fun hf => by simpa using hf
    · exact h
  | start q | irqWork q | take q | clear q | removeHooks q | irqWorkSync q | cancelDone q =>
    left
    unfold FreqSys.next at h
    dsimp only at h
    split at h
    · exact hset _ _ _ h rfl id
    · exact h

/-- One transition in flight at policy `p`, and the driver asked by `sugov_work` for what was
committed, and otherwise only for what new limits ask for. -/
structure OneInFlight (resolve : L → Nat → Nat) (applyLimits : L → Nat → Option Nat) (s : FreqSys L)
    (p : Nat) : Prop where
  one : (s.lanes p).inFlight ≤ 1
  wip_iff : (s.lanes p).phase.Live →
    ((s.policy p).workInProgress = true ↔ (s.lanes p).inFlight = 1)
  wip_of_inFlight : (s.lanes p).inFlight = 1 → (s.policy p).workInProgress = true
  none_stopped : (s.lanes p).phase = .stopped → (s.lanes p).inFlight = 0
  nextFreq_stable : (s.policy p).workInProgress = true → ∀ e,
    ((s.next resolve applyLimits e).policy p).workInProgress = true ∨ (s.lanes p).inFlight = 1 →
      ((s.next resolve applyLimits e).policy p).nextFreq = (s.policy p).nextFreq
  targets : FreqLog.targets (s.lanes p).log ++
    (if (s.lanes p).Unread then [(s.policy p).nextFreq] else []) =
      FreqLog.survivors (s.lanes p).log
  limits : ∀ f, FreqLog.limits f ∈ (s.lanes p).log → ∃ limits cur, applyLimits limits cur = some f
  not_max : uintMax ∉ FreqLog.driverTargets (s.lanes p).log

theorem driverTargets_mem {log : List FreqLog} {f : Nat} (h : f ∈ FreqLog.driverTargets log) :
    f ∈ FreqLog.targets log ∨ FreqLog.limits f ∈ log := by
  unfold FreqLog.driverTargets at h
  obtain ⟨e, he, hf⟩ := List.mem_filterMap.mp h
  cases e with
  | target f' =>
    cases hf
    exact .inl (List.mem_filterMap.mpr ⟨_, he, rfl⟩)
  | limits f' =>
    cases hf
    exact .inr he
  | commit f' => cases hf
  | cancel => cases hf

theorem Inv.oneInFlight (hres : ∀ l f, resolve l f < uintMax)
    (happly : ∀ l cur f, applyLimits l cur = some f → f < uintMax) {s : FreqSys L} (hs : Inv g s)
    {p : Nat} (hslow : (s.policy p).policy.fastSwitchEnabled = false)
    (hlimits : ∀ f, FreqLog.limits f ∈ (s.lanes p).log → ∃ limits cur, applyLimits limits cur = some f) :
    s.OneInFlight resolve applyLimits p := by
  have hok := hs.lanes p hslow
  refine ⟨hok.one, fun hl => ⟨hok.inFlight_of_wip hl, hok.wip_of_inFlight⟩, hok.wip_of_inFlight,
    hok.stopped, fun hw e => hs.nextFreq_stable hres hslow hw e, hok.log, hlimits, fun hm => ?_⟩
  rcases driverTargets_mem hm with htarget | happlied
  · refine hok.sane ?_
    rw [← hok.log]
    exact List.mem_append_left _ htarget
  · obtain ⟨limits, cur, hf⟩ := hlimits _ happlied
    exact absurd (happly _ _ _ hf) (lt_irrefl _)

end FreqSys

/-- The call of `cpufreq_policy_apply_limits`, for limits in the range of the CPU. -/
def clampLimits (limits : Nat × Nat) (cur : Nat) : Option Nat :=
  if min 2000000 limits.2 < cur then some (min 2000000 limits.2)
  else if cur < min 2000000 limits.1 then some (min 2000000 limits.1)
  else none

theorem clampLimits_lt (limits : Nat × Nat) (cur f : Nat) (h : clampLimits limits cur = some f) :
    f < uintMax := by
  unfold clampLimits at h
  unfold uintMax
  split at h
  · cases h
    omega
  · split at h
    · cases h
      omega
    · cases h

/-- A transition to 1.25 GHz, new limits below it, a restart and a transition to the maximum. -/
def restarted : FreqSys (Nat × Nat) :=
  run (FreqSys.next clampFreq clampLimits) (.boot (machine {0})) [.start 0,
    .update 0 (busyEnv 10000000 512 1), .irqWork 0, .take 0, .target 0 1250000, .clear 0,
    .limits 0 (300000, 1000000) 1000000, .removeHooks 0, .irqWorkSync 0, .cancelWork 0,
    .cancelDone 0, .start 0, .update 0 { busyEnv 20000000 0 2 with flags := schedCpufreqDl },
    .irqWork 0]

end MSchedutil
