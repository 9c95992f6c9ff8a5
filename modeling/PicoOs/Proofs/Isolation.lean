import PicoOs.Library.Shares
import PicoOs.Proofs.PageAlignment
import PicoOs.Proofs.ProtectionUnits
import PicoOs.Proofs.ThreadAssets

/-! Processes are isolated from each other and from the kernel. Every page range has one owner, the
regions of a thread are the ranges that it owns, and the MPU has the regions of the process that
runs. -/

namespace PicoOs.Kernel
open Library Protection MPU

inductive Equipped : ProgramPoint → List PageRange → List RegionRegisters → Prop where
  | gone {point : ProgramPoint} (gone : point.gone = true) (regions : List RegionRegisters) :
      Equipped point [] regions
  | fresh : Equipped .fresh [] [flashRegion]
  | kernel {point : ProgramPoint} (setUp : point.setUp = true) (kernel : point ≠ .userMode)
      (stack : PageRange)
      (more : List PageRange) : Equipped point (stack :: more) [flashRegion, dataRegion stack]
  | user (stack writable : PageRange) : Equipped .userMode [stack, writable]
      (processRegions stack writable)

namespace Equipped
variable {point : ProgramPoint} {owned : List PageRange} {regions : List RegionRegisters}

private theorem of_gone (equipped : Equipped point owned regions) (gone : point.gone = true) :
    owned = [] := by
  cases equipped with
  | gone => rfl
  | fresh => cases gone
  | kernel setUp => exact absurd gone (Bool.eq_false_iff.mp (ProgramPoint.setUp_excludes setUp).1)
  | user => cases gone

private theorem of_fresh (equipped : Equipped point owned regions) (fresh : point = .fresh) :
    owned = [] ∧ regions = [flashRegion] := by
  subst fresh
  cases equipped with
  | gone gone => cases gone
  | fresh => exact ⟨rfl, rfl⟩
  | kernel setUp => cases setUp

theorem of_kernel (equipped : Equipped point owned regions) (setUp : point.setUp = true)
    (kernel : point ≠ .userMode) :
    ∃ stack more, owned = stack :: more ∧ regions = [flashRegion, dataRegion stack] := by
  cases equipped with
  | gone gone => exact absurd gone (Bool.eq_false_iff.mp (ProgramPoint.setUp_excludes setUp).1)
  | fresh => cases setUp
  | kernel _ _ stack more => exact ⟨stack, more, rfl, rfl⟩
  | user => exact absurd rfl kernel

private theorem of_user (equipped : Equipped point owned regions) (user : point = .userMode) :
    ∃ stack writable, owned = [stack, writable] ∧ regions = processRegions stack writable := by
  subst user
  cases equipped with
  | gone gone => cases gone
  | kernel _ kernel => exact absurd rfl kernel
  | user stack writable => exact ⟨stack, writable, rfl, rfl⟩

theorem installs (equipped : Equipped point owned regions) (setUp : point.setUp = true)
    (unit : ProtectionUnit) :
    ∃ mpu, setupMpu regions unit = some mpu ∧ mpu.Has (regions.map RegionRegisters.region) := by
  have plain (range : PageRange) : Plain (dataRegion range) := ⟨rfl, rfl⟩
  have flash : Plain flashRegion := ⟨rfl, rfl⟩
  have rom : Plain romRegion := ⟨rfl, rfl⟩
  cases equipped with
  | gone gone => exact absurd gone (Bool.eq_false_iff.mp (ProgramPoint.setUp_excludes setUp).1)
  | fresh => cases setUp
  | kernel _ _ stack more =>
    refine setupMpu_has (List.cons_ne_nil _ _) (Nat.le_of_ble_eq_true rfl) ?_ unit
    simp only [List.forall_mem_cons]
    exact ⟨flash, plain stack, List.forall_mem_nil _⟩
  | user stack writable =>
    refine setupMpu_has (List.cons_ne_nil _ _) (Nat.le_of_ble_eq_true rfl) ?_ unit
    simp only [List.forall_mem_cons]
    exact ⟨flash, plain stack, plain writable, rom, List.forall_mem_nil _⟩

end Equipped

theorem Thread.holdings_eq {before after : Thread}
    (owned : after.ownedPageRanges = before.ownedPageRanges)
    (ranges : after.point.ranges = before.point.ranges) : after.holdings = before.holdings := by
  rw [holdings, holdings, owned, ranges]

/-- Steps that neither create nor destroy a thread, nor give it a page range, nor change the
mode. -/
def ThreadStep.calm : ThreadStep → Bool
  | clearDangling _ | finishDestroy | constructHandler | construct | setupHandler _ _ | setup _ _ _
  | loadExecutable _ | handOver
  | svc => false
  | _ => true

namespace ThreadStep
variable {step : ThreadStep} {state : State} {thread other : ThreadId}

private theorem calm_assets (calm : step.calm = true) :
    state.assetsAfter thread step other = (state.threads other).assets := by
  cases step <;> first | rfl | cases calm

private theorem calm_point (calm : step.calm = true) :
    state.pointAfter thread step other = (state.threads other).point := by
  cases step <;> first | rfl | cases calm

end ThreadStep

namespace ProtectedState
variable {state : ProtectedState} {space : Set Nat} {range : PageRange} {thread : ThreadId}

theorem allocate_given (state : ProtectedState)
    (holds : state.pages.Holds (fun range => range.size ∣ range.base) space)
    (gives : state.Gives range) :
    ∃ pages, state.allocate range.power = .ok { state with pages } ∧
    pages.live = range :: state.pages.live ∧
      pages.Holds (fun range => range.size ∣ range.base) space ∧ range ∉ state.pages.live := by
  cases done : state.pages.allocator.allocateLocked range.power with
  | error fault =>
    rw [Gives, done] at gives
    cases gives
  | ok result =>
    obtain ⟨found, allocator⟩ := result
    rw [Gives, done] at gives
    obtain rfl : found = some range := gives
    have executed : state.pages.execute (.allocate range.power) =
      .ok ⟨allocator, range :: state.pages.live⟩ := by
      rw [PageState.execute, done]
      rfl
    have allowed : state.pages.permitted (.allocate range.power) := trivial
    have kept := (holds.execute PageRange.halving_dvd allowed executed).1
    refine ⟨⟨allocator, range :: state.pages.live⟩, ?_, rfl, kept, fun member => ?_⟩
    · rw [allocate, executed]
      rfl
    · obtain ⟨free, current⟩ := kept
      have apart := (List.pairwise_cons.mp (List.pairwise_append.mp current.packs.disjoint).2.1).1 range member
      have inside : range.base ∈ range.cells :=
        PageRange.mem_cells.mpr ⟨Nat.le_refl _, Nat.lt_add_of_pos_right (Nat.two_pow_pos _)⟩
      exact Set.disjoint_left.mp apart inside inside

/-- All ranges that a destructor gives back belong to the default thread. -/
theorem deallocate_all (state : ProtectedState) {holdings : ThreadId → List PageRange}
    {reserved kept ranges : List PageRange}
    (holds : state.pages.Holds (fun range => range.size ∣ range.base) space)
    (shares : Shares holdings reserved state.pages.live)
    (mine : holdings thread = kept ++ ranges) :
    ∃ pages, ranges.foldlM deallocate state = .ok { state with pages } ∧
      pages.Holds (fun range => range.size ∣ range.base) space ∧
      Shares (Function.update holdings thread kept) reserved pages.live ∧
      ∀ range ∈ pages.live, range ∈ state.pages.live := by
  induction ranges generalizing state holdings with
  | nil =>
    rw [List.append_nil] at mine
    rw [← mine, Function.update_eq_self]
    exact ⟨state.pages, rfl, holds, shares, fun _ => id⟩
  | cons range ranges ih =>
    obtain ⟨free, current⟩ := holds
    have live : range ∈ state.pages.live :=
      shares.held thread range (by rw [mine]; exact List.mem_append_right _ List.mem_cons_self)
    obtain ⟨pushed, released, -⟩ := (current.perm (List.perm_cons_erase live)).push
    have executed : state.deallocate range =
        .ok { state with pages := ⟨state.pages.allocator.pushed range,
          state.pages.live.erase range⟩ } := by
      rw [deallocate, PageState.execute, pushed]
      rfl
    obtain ⟨pages, rest, final, settled, inside⟩ := ih
      { state with pages := ⟨state.pages.allocator.pushed range, state.pages.live.erase range⟩ }
      ⟨_, released⟩ (shares.release mine) (Function.update_self _ _ _)
    rw [Function.update_idem] at settled
    refine ⟨pages, ?_, final, settled,
      fun other member => List.mem_of_mem_erase (inside other member)⟩
    rw [List.foldlM_cons, executed]
    exact rest

end ProtectedState

/-- The ranges that no thread owns. -/
def ProtectedState.kernelRanges (state : ProtectedState) : List PageRange :=
  [state.heap, state.inputBuffer]

structure Isolated (space : Set Nat) (state : ProtectedState) : Prop where
  valid : Valid state.system
  pages : state.pages.Holds (fun range => range.size ∣ range.base) space
  large : ∀ range ∈ state.pages.live, pagePower ≤ range.power
  shares : Shares (fun thread => (state.system.threads thread).holdings) state.kernelRanges
    state.pages.live
  equipped : ∀ thread, Equipped (state.system.threads thread).point
    (state.system.threads thread).ownedPageRanges (state.regions thread)
  levels : ∀ thread, thread ≠ dummyThread → (state.system.threads thread).privileged = false →
    (state.system.threads thread).point = .userMode ∨
      (state.system.threads thread).point.gone = true
  programmed : state.unprivileged → ∃ thread, state.system.activeThread = some thread ∧
    (state.system.threads thread).point = .userMode ∧
      state.mpu.Has ((state.regions thread).map RegionRegisters.region)

namespace Isolated
variable {space : Set Nat} {state : ProtectedState} {system : State} {thread : ThreadId}
  {step : ThreadStep}

structure KernelStep (state : ProtectedState) (thread : ThreadId) (step : ThreadStep)
    (system : State) : Prop where
  permitted : state.system.permitted (.thread thread step)
  executed : state.system.step thread step = .ok system
  own : step ≠ .svc
  stays : step ≠ .handOver
  kernel : (state.system.threads thread).point ≠ .userMode

structure Untouched (before after : ProtectedState) (thread : ThreadId) : Prop where
  point : (after.system.threads thread).point = (before.system.threads thread).point
  owned : (after.system.threads thread).ownedPageRanges =
    (before.system.threads thread).ownedPageRanges
  level : (after.system.threads thread).privileged = (before.system.threads thread).privileged
  regions : after.regions thread = before.regions thread

namespace KernelStep

theorem running (taken : KernelStep state thread step system) :
    state.system.activeThread = some thread := taken.permitted.2.1

private theorem setUp (taken : KernelStep state thread step system)
    (isolated : Isolated space state) :
    (state.system.threads thread).point.setUp = true :=
  (isolated.valid.sound thread).running (by simp [State.view, taken.running])

private theorem next (taken : KernelStep state thread step system)
    (isolated : Isolated space state) : Valid system :=
  (isolated.valid.execute taken.permitted).value taken.executed

theorem assets (taken : KernelStep state thread step system) (isolated : Isolated space state)
    (other : ThreadId) :
    (system.threads other).assets = state.system.assetsAfter thread step other :=
  isolated.valid.step_assets taken.permitted taken.executed taken.own other

theorem owned (taken : KernelStep state thread step system) (isolated : Isolated space state)
    (other : ThreadId) :
    (system.threads other).ownedPageRanges = (state.system.assetsAfter thread step other).1 :=
  congrArg Prod.fst (taken.assets isolated other)

theorem level (taken : KernelStep state thread step system) (isolated : Isolated space state)
    (other : ThreadId) :
    (system.threads other).privileged = (state.system.assetsAfter thread step other).2 :=
  congrArg Prod.snd (taken.assets isolated other)

theorem point (taken : KernelStep state thread step system) (isolated : Isolated space state) :
    (system.threads thread).point = state.system.lands thread step :=
  isolated.valid.step_lands taken.permitted taken.executed taken.own

theorem others (taken : KernelStep state thread step system) (isolated : Isolated space state)
    {other : ThreadId} (differs : other ≠ thread) :
    (system.threads other).point = state.system.pointAfter thread step other :=
  isolated.valid.step_points taken.permitted taken.executed taken.own differs

private theorem target_ne (taken : KernelStep state thread step system)
    (isolated : Isolated space state) : state.system.target step ≠ some thread :=
  isolated.valid.target_ne taken.permitted taken.executed taken.own

private theorem grown (taken : KernelStep state thread step system)
    (isolated : Isolated space state) :
    ∃ more, (system.threads thread).ownedPageRanges =
      (state.system.threads thread).ownedPageRanges ++ more := by
  rw [taken.owned isolated thread]
  exact State.assetsAfter_own (taken.target_ne isolated)

theorem level_kept (taken : KernelStep state thread step system) (isolated : Isolated space state)
    {other : ThreadId} (elsewhere : state.system.target step ≠ some other) :
    (system.threads other).privileged = (state.system.threads other).privileged :=
  (taken.level isolated other).trans (State.assetsAfter_level elsewhere taken.stays)

/-- The step is neither one of the thread nor about it. -/
theorem untouched (taken : KernelStep state thread step system) (isolated : Isolated space state)
    {after : ProtectedState} (same : after.system = system) {other : ThreadId}
    (differs : other ≠ thread) (elsewhere : state.system.target step ≠ some other)
    (regions : after.regions other = state.regions other) : Untouched state after other where
  point := by
    rw [same, taken.others isolated differs, State.pointAfter_elsewhere elsewhere]
  owned := by
    rw [same, taken.owned isolated other, State.assetsAfter_elsewhere elsewhere differs]
    rfl
  level := by rw [same, taken.level_kept isolated elsewhere]
  regions := regions

private theorem privileged (taken : KernelStep state thread step system)
    (isolated : Isolated space state) : system.control ≠ 0b11 := by
  intro user
  have kept := (isolated.valid.step_stays taken.permitted taken.executed taken.own).2
  rw [if_neg taken.stays] at kept
  obtain ⟨active, runs, point, -⟩ := isolated.programmed (kept.symm.trans user)
  obtain rfl := Option.some.inj (runs.symm.trans taken.running)
  exact taken.kernel point

private theorem victim {victim : ThreadId}
    (taken : KernelStep state thread (.clearDangling victim) system)
    (isolated : Isolated space state) :
    (state.system.threads victim).point.ends = true ∧ victim ≠ thread := by
  have point : (state.system.threads thread).point = .defaultRelease victim :=
    taken.permitted.2.2.2.2
  have ends := State.released_ends isolated.valid.sound taken.running point
  refine ⟨ends, fun same => ?_⟩
  rw [same, point] at ends
  cases ends

end KernelStep

structure Renewed (after : ProtectedState) (thread : ThreadId) : Prop where
  equipped : Equipped (after.system.threads thread).point
    (after.system.threads thread).ownedPageRanges (after.regions thread)
  level : (after.system.threads thread).point.gone = true ∨
    (after.system.threads thread).privileged = true

theorem Renewed.of {after : ProtectedState} {point : ProgramPoint} {ranges : List PageRange}
    {regions : List RegionRegisters}
    (equipped : Equipped point ranges regions) (same : (after.system.threads thread).point = point)
    (owned : (after.system.threads thread).ownedPageRanges = ranges)
    (listed : after.regions thread = regions)
    (level : point.gone = true ∨ (after.system.threads thread).privileged = true) :
    Renewed after thread := by
  subst same owned listed
  exact ⟨equipped, level⟩

/-- A step of the kernel, with what is left to show of the page ranges and of each thread. -/
theorem kernel_step (isolated : Isolated space state) (taken : KernelStep state thread step system)
    {after : ProtectedState}
    (same : after.system = system)
    (pages : after.pages.Holds (fun range => range.size ∣ range.base) space)
    (large : ∀ range ∈ after.pages.live, pagePower ≤ range.power)
    (shares : Shares (fun thread => (system.threads thread).holdings) after.kernelRanges after.pages.live)
    (regions : after.regions thread = state.regions thread)
    (others : ∀ other, other ≠ thread → Untouched state after other ∨ Renewed after other) :
    Isolated space after := by
  subst same
  have setUp := taken.setUp isolated
  refine ⟨taken.next isolated, pages, large, shares, fun other => ?_, fun other differs user => ?_,
    fun user => ?_⟩
  · by_cases mine : other = thread
    · subst mine
      obtain ⟨more, grown⟩ := taken.grown isolated
      obtain ⟨stack, rest, before, listed⟩ := (isolated.equipped other).of_kernel setUp taken.kernel
      have landed := isolated.valid.step_kernel taken.permitted taken.own taken.stays taken.kernel
      rw [taken.point isolated, grown, before, regions, listed]
      exact .kernel landed.1 landed.2 stack (rest ++ more)
    · rcases others other mine with kept | renewed
      · rw [kept.point, kept.owned, kept.regions]
        exact isolated.equipped other
      · exact renewed.equipped
  · by_cases mine : other = thread
    · subst mine
      have level := taken.level_kept isolated (taken.target_ne isolated)
      rcases isolated.levels other differs (level.symm.trans user) with point | gone
      · exact absurd point taken.kernel
      · exact absurd gone (Bool.eq_false_iff.mp (ProgramPoint.setUp_excludes setUp).1)
    · rcases others other mine with kept | renewed
      · rw [kept.point]
        exact isolated.levels other differs (kept.level.symm.trans user)
      · refine .inr (renewed.level.resolve_right fun privileged => ?_)
        rw [user] at privileged
        cases privileged
  · exact absurd user (taken.privileged isolated)

private theorem calm (isolated : Isolated space state) (taken : KernelStep state thread step system)
    (calm : step.calm = true) :
    Isolated space { state with system } := by
  have owned (other : ThreadId) : (system.threads other).ownedPageRanges =
    (state.system.threads other).ownedPageRanges :=
    (taken.owned isolated other).trans (congrArg Prod.fst (ThreadStep.calm_assets calm))
  have level (other : ThreadId) : (system.threads other).privileged =
    (state.system.threads other).privileged :=
    (taken.level isolated other).trans (congrArg Prod.snd (ThreadStep.calm_assets calm))
  have point (other : ThreadId) (differs : other ≠ thread) : (system.threads other).point =
    (state.system.threads other).point :=
    (taken.others isolated differs).trans (ThreadStep.calm_point calm)
  have starts (victim : ThreadId) : step ≠ .clearDangling victim := by
    rintro rfl
    cases calm
  have ends : step ≠ .finishDestroy := by
    rintro rfl
    cases calm
  have holdings : (fun thread => (system.threads thread).holdings) = fun thread =>
    (state.system.threads thread).holdings := by
    funext other
    refine Thread.holdings_eq (owned other) ?_
    by_cases mine : other = thread
    · subst mine
      rw [taken.point isolated]
      exact State.lands_ranges taken.permitted taken.own starts ends
    · rw [point other mine]
  exact isolated.kernel_step taken rfl isolated.pages isolated.large (holdings ▸ isolated.shares)
    rfl fun other differs => .inl ⟨point other differs, owned other, level other, rfl⟩

/-- The default thread takes over the ranges of the thread that it destroys. -/
theorem clearDangling {victim : ThreadId} (isolated : Isolated space state)
    (taken : KernelStep state thread (.clearDangling victim) system) :
    Isolated space { state with system } := by
  have point : (state.system.threads thread).point = .defaultRelease victim :=
    taken.permitted.2.2.2.2
  have landed : (system.threads thread).point = .defaultDestroying
    (state.system.threads victim).ownedPageRanges := taken.point isolated
  obtain ⟨ends, differs⟩ := taken.victim isolated
  have nothing : (state.system.threads victim).point.ranges = [] := by
    generalize (state.system.threads victim).point = point at ends
    cases point <;> first | rfl | cases ends
  have destroyed : (system.threads victim).point = .destroyed :=
    (taken.others isolated differs).trans (if_pos rfl)
  have emptied : (system.threads victim).ownedPageRanges = [] :=
    (taken.owned isolated victim).trans (congrArg Prod.fst (if_pos rfl))
  have mine : (system.threads thread).ownedPageRanges =
      (state.system.threads thread).ownedPageRanges :=
    (taken.owned isolated thread).trans (congrArg Prod.fst (if_neg differs.symm))
  have kept {other : ThreadId} (apart : other ≠ thread) (safe : other ≠ victim) :
      Untouched state { state with system } other :=
    taken.untouched isolated rfl apart (fun same => safe (Option.some.inj same).symm) rfl
  have holdings : (fun thread => (system.threads thread).holdings) =
      Function.update (Function.update (fun thread => (state.system.threads thread).holdings) victim []) thread
        ((state.system.threads thread).holdings ++ (state.system.threads victim).holdings) := by
    funext other
    by_cases own : other = thread
    · subst own
      rw [Function.update_self, Thread.holdings, Thread.holdings, Thread.holdings,
        mine, landed, nothing, point, List.append_nil]
      exact congrArg (· ++ _) (List.append_nil _).symm
    · rw [Function.update_of_ne own]
      by_cases doomed : other = victim
      · subst doomed
        rw [Function.update_self, Thread.holdings, emptied, destroyed]
        rfl
      · rw [Function.update_of_ne doomed]
        have same := kept own doomed
        exact Thread.holdings_eq same.owned (congrArg ProgramPoint.ranges same.point)
  refine isolated.kernel_step taken rfl isolated.pages isolated.large
    (holdings ▸ isolated.shares.pass differs) rfl fun other apart => ?_
  by_cases doomed : other = victim
  · subst doomed
    exact .inr (.of (.gone rfl _) destroyed emptied rfl (.inl rfl))
  · exact .inl (kept apart doomed)

private theorem finishDestroy {ranges : List PageRange} (isolated : Isolated space state)
    (taken : KernelStep state thread .finishDestroy system)
    (point : (state.system.threads thread).point = .defaultDestroying ranges) :
    ∃ after, ranges.foldlM ProtectedState.deallocate { state with system } = .ok after ∧
    Isolated space after := by
  have landed : (system.threads thread).point = .defaultLoop := taken.point isolated
  have mine : (state.system.threads thread).holdings = (state.system.threads thread).ownedPageRanges ++ ranges := by
    rw [Thread.holdings, point]
    rfl
  obtain ⟨pages, done, holds, shares, inside⟩ :=
    ProtectedState.deallocate_all { state with system } isolated.pages isolated.shares mine
  have holdings : (fun thread => (system.threads thread).holdings) =
    Function.update (fun thread => (state.system.threads thread).holdings)
      thread (state.system.threads thread).ownedPageRanges := by
    funext other
    by_cases same : other = thread
    · subst same
      rw [Function.update_self, Thread.holdings, landed, taken.owned isolated other]
      exact List.append_nil _
    · rw [Function.update_of_ne same]
      exact Thread.holdings_eq (taken.owned isolated other)
        (congrArg ProgramPoint.ranges (taken.others isolated same))
  refine ⟨_, done, isolated.kernel_step taken rfl holds ?_ (holdings ▸ shares) rfl ?_⟩
  · exact fun range member => isolated.large range (inside range member)
  · exact fun other differs => .inl (taken.untouched isolated rfl differs nofun rfl)

private theorem constructs (isolated : Isolated space state)
    (taken : KernelStep state thread step system)
    (creates : step = .constructHandler ∨ step = .construct) :
    Isolated space { state with system, regions := Function.update state.regions state.system.next [flashRegion] } := by
  have assets (other : ThreadId) : state.system.assetsAfter thread step other =
      if other = state.system.next then ([], true) else (state.system.threads other).assets := by
    rcases creates with rfl | rfl <;> rfl
  have places (other : ThreadId) : state.system.pointAfter thread step other =
      if other = state.system.next then .fresh else (state.system.threads other).point := by
    rcases creates with rfl | rfl <;> rfl
  have apart : thread ≠ state.system.next :=
    Nat.ne_of_lt (State.active_born isolated.valid.sound taken.running)
  have unborn : (state.system.threads state.system.next).point = .unborn :=
    (isolated.valid.sound state.system.next).born.mp (decide_eq_false (Nat.lt_irrefl _))
  have fresh : (system.threads state.system.next).point = .fresh :=
    (taken.others isolated apart.symm).trans ((places _).trans (if_pos rfl))
  have nothing : (system.threads state.system.next).ownedPageRanges = [] :=
    (taken.owned isolated _).trans (congrArg Prod.fst ((assets _).trans (if_pos rfl)))
  have mine : (system.threads thread).ownedPageRanges =
      (state.system.threads thread).ownedPageRanges :=
    (taken.owned isolated thread).trans (congrArg Prod.fst ((assets thread).trans (if_neg apart)))
  have kept {other : ThreadId} (differs : other ≠ thread) (old : other ≠ state.system.next) :
      Untouched state { state with
        system, regions := Function.update state.regions state.system.next [flashRegion] } other := by
    refine taken.untouched isolated rfl differs (fun same => old ?_) (Function.update_of_ne old _ _)
    rcases creates with rfl | rfl
    · exact (Option.some.inj same).symm
    · exact (Option.some.inj same).symm
  have holdings : (fun thread => (system.threads thread).holdings) = fun thread =>
    (state.system.threads thread).holdings := by
    funext other
    by_cases new : other = state.system.next
    · subst new
      refine Thread.holdings_eq (nothing.trans ?_) ?_
      · exact ((isolated.equipped _).of_gone (by rw [unborn]; rfl)).symm
      · rw [fresh, unborn]
        rfl
    · by_cases same : other = thread
      · subst same
        refine Thread.holdings_eq mine ?_
        rw [taken.point isolated]
        refine State.lands_ranges taken.permitted taken.own ?_ ?_ <;>
          rcases creates with rfl | rfl <;> nofun
      · have unchanged := kept same new
        exact Thread.holdings_eq unchanged.owned (congrArg ProgramPoint.ranges unchanged.point)
  refine isolated.kernel_step taken rfl isolated.pages isolated.large (holdings ▸ isolated.shares)
    (Function.update_of_ne apart _ _) fun other differs => ?_
  by_cases new : other = state.system.next
  · subst new
    exact .inr (.of .fresh fresh nothing (Function.update_self _ _ _)
      (.inr ((taken.level isolated _).trans (congrArg Prod.snd ((assets _).trans (if_pos rfl))))))
  · exact .inl (kept differs new)

private theorem privileged_fresh (isolated : Isolated space state) {child : ThreadId}
    (fresh : (state.system.threads child).point = .fresh) :
    (state.system.threads child).privileged = true := by
  have fits := (isolated.valid.sound child).fits
  have other : child ≠ dummyThread := by
    rintro rfl
    rw [State.view_thread, fresh] at fits
    cases fits
  refine Bool.of_not_eq_false fun user => ?_
  rcases isolated.levels child other user with point | gone
  · rw [fresh] at point
    cases point
  · rw [fresh] at gone
    cases gone

private theorem prepares (isolated : Isolated space state)
    (taken : KernelStep state thread step system) {child : ThreadId} {stack : PageRange}
    {entry : ProgramPoint} (fresh : (state.system.threads child).point = .fresh)
    (differs : child ≠ thread)
    (starts : ∀ victim, step ≠ .clearDangling victim) (ends : step ≠ .finishDestroy)
    (assets : ∀ other, state.system.assetsAfter thread step other = if other = child then
      ((state.system.threads other).ownedPageRanges ++ [stack],
        (state.system.threads other).privileged) else (state.system.threads other).assets)
    (places : ∀ other, state.system.pointAfter thread step other = if other = child then entry else (state.system.threads other).point)
    (setUp : entry.setUp = true) (kernel : entry ≠ .userMode) (plain : entry.ranges = [])
    (power : stack.power = stackPower) (gives : state.Gives stack) :
    ∃ after, ({ state with system } : ProtectedState).giveStack child stack = .ok after ∧
    Isolated space after := by
  have large : pagePower ≤ stack.power := power ▸ (by decide : pagePower ≤ stackPower)
  have owned {other : ThreadId} (old : other ≠ child) : (system.threads other).ownedPageRanges =
    (state.system.threads other).ownedPageRanges :=
    (taken.owned isolated other).trans (congrArg Prod.fst ((assets other).trans (if_neg old)))
  have level (other : ThreadId) : (system.threads other).privileged =
    (state.system.threads other).privileged := by
    rw [taken.level isolated other, assets other]
    split <;> rfl
  have stays {other : ThreadId} (mine : other ≠ thread) (old : other ≠ child) :
      (system.threads other).point = (state.system.threads other).point :=
        (taken.others isolated mine).trans ((places other).trans (if_neg old))
  obtain ⟨empty, listed⟩ := (isolated.equipped child).of_fresh fresh
  have entered : (system.threads child).point = entry :=
    (taken.others isolated differs).trans ((places _).trans (if_pos rfl))
  have given : (system.threads child).ownedPageRanges = [stack] := by
    rw [taken.owned isolated child, assets child, if_pos rfl, empty]
    rfl
  have nothing : (state.system.threads child).holdings = [] := by
    rw [Thread.holdings, empty, fresh]
    rfl
  have holdings : (fun thread => (system.threads thread).holdings) =
    Function.update (fun thread => (state.system.threads thread).holdings)
      child ((state.system.threads child).holdings ++ [stack]) := by
    funext other
    by_cases new : other = child
    · subst new
      rw [Function.update_self, Thread.holdings, given, entered, plain, nothing]
      rfl
    · rw [Function.update_of_ne new]
      refine Thread.holdings_eq (owned new) ?_
      by_cases same : other = thread
      · subst same
        rw [taken.point isolated]
        exact State.lands_ranges taken.permitted taken.own starts ends
      · rw [stays same new]
  obtain ⟨pages, allocated, live, holds, unused⟩ :=
    ProtectedState.allocate_given { state with system } isolated.pages gives
  rw [power] at allocated
  refine ⟨{ state with system, pages, regions := Function.update state.regions child (state.regions child ++ [dataRegion stack]) }, ?_, ?_⟩
  · rw [ProtectedState.giveStack, allocated, stackRegion_eq large]
    rfl
  · refine isolated.kernel_step taken rfl holds (fun range member => ?_) ?_
      (Function.update_of_ne differs.symm _ _) fun other mine => ?_
    · rw [live] at member
      rcases List.mem_cons.mp member with rfl | earlier
      · exact large
      · exact isolated.large range earlier
    · rw [holdings, live]
      exact isolated.shares.give child unused
    · by_cases new : other = child
      · subst new
        refine .inr (.of (.kernel setUp kernel stack []) entered given ?_ (.inr ((level other).trans (isolated.privileged_fresh fresh))))
        exact (Function.update_self _ _ _).trans (by rw [listed]; rfl)
      · exact .inl ⟨stays mine new, owned new, level other, Function.update_of_ne new _ _⟩

private theorem loadExecutable (isolated : Isolated space state) {range : PageRange}
    (taken : KernelStep state thread (.loadExecutable range) system)
    (large : pagePower ≤ range.power) (gives : state.Gives range) :
    ∃ after, ({ state with system } : ProtectedState).allocate range.power = .ok after ∧
    Isolated space after := by
  have point : (system.threads thread).point = (state.system.threads thread).point :=
    taken.point isolated
  have started : (state.system.threads thread).point = .processStart := taken.permitted.2.2.2.2
  have grown : (system.threads thread).ownedPageRanges =
    (state.system.threads thread).ownedPageRanges ++ [range] :=
    (taken.owned isolated thread).trans (congrArg Prod.fst (if_pos rfl))
  have kept {after : ProtectedState} (same : after.system = system) {other : ThreadId}
      (differs : other ≠ thread) (regions : after.regions other = state.regions other) :
      Untouched state after other := taken.untouched isolated same differs nofun regions
  have holdings : (fun thread => (system.threads thread).holdings) =
    Function.update (fun thread => (state.system.threads thread).holdings)
      thread ((state.system.threads thread).holdings ++ [range]) := by
    funext other
    by_cases mine : other = thread
    · subst mine
      rw [Function.update_self, Thread.holdings, Thread.holdings, grown, point, started]
      simp only [ProgramPoint.ranges, List.append_nil]
    · rw [Function.update_of_ne mine]
      have same := @kept { state with system } rfl other mine rfl
      exact Thread.holdings_eq same.owned (congrArg ProgramPoint.ranges same.point)
  obtain ⟨pages, allocated, live, holds, unused⟩ :=
    ProtectedState.allocate_given { state with system } isolated.pages gives
  refine ⟨_, allocated, isolated.kernel_step taken rfl holds (fun other member => ?_) ?_ rfl
    fun other mine => .inl (kept rfl mine rfl)⟩
  · rw [live] at member
    rcases List.mem_cons.mp member with rfl | earlier
    · exact large
    · exact isolated.large other earlier
  · rw [holdings, live]
    exact isolated.shares.give thread unused

theorem placed (isolated : Isolated space state) {range : PageRange}
    (live : range ∈ state.pages.live) :
    range.Placed ∧ range.size ∣ range.base := by
  obtain ⟨free, holds⟩ := isolated.pages
  exact holds.placed range (List.mem_append_right _ live)

theorem owned_live (isolated : Isolated space state) {range : PageRange}
    (owned : range ∈ (state.system.threads thread).ownedPageRanges) :
    range ∈ state.pages.live := isolated.shares.held thread range (List.mem_append_left _ owned)

/-- A process enters its executable with the regions of its stack and its writable segment. -/
theorem handOver (isolated : Isolated space state)
    (permitted : state.system.permitted (.thread thread .handOver))
    (executed : state.system.step thread .handOver = .ok system)
    (loaded : (state.system.threads thread).ownedPageRanges.length = 2) :
    ∃ after, ({ state with system } : ProtectedState).accompany state.system
      (.thread thread .handOver) = .ok after ∧ Isolated space after := by
  have next := (isolated.valid.execute permitted).value executed
  have own : ThreadStep.handOver ≠ .svc := fun same => by cases same
  have started : (state.system.threads thread).point = .processStart := permitted.2.2.2.2
  have entered : (system.threads thread).point = .userMode :=
    isolated.valid.step_lands permitted executed own
  have assets (other : ThreadId) := isolated.valid.step_assets permitted executed own other
  have owned (other : ThreadId) : (system.threads other).ownedPageRanges =
    (state.system.threads other).ownedPageRanges := by
    refine (congrArg Prod.fst (assets other)).trans ?_
    rw [State.assetsAfter]
    split <;> rfl
  have level {other : ThreadId} (mine : other ≠ thread) : (system.threads other).privileged =
    (state.system.threads other).privileged :=
    congrArg Prod.snd ((assets other).trans (if_neg mine))
  have stays {other : ThreadId} (mine : other ≠ thread) : (system.threads other).point =
    (state.system.threads other).point :=
    isolated.valid.step_points permitted executed own mine
  have holdings : (fun thread => (system.threads thread).holdings) = fun thread =>
    (state.system.threads thread).holdings := by
    funext other
    refine Thread.holdings_eq (owned other) ?_
    by_cases mine : other = thread
    · subst mine
      rw [entered, started]
      rfl
    · rw [stays mine]
  obtain ⟨stack, more, whole, listed⟩ :=
    (isolated.equipped thread).of_kernel (by rw [started]; rfl) (by rw [started]; exact fun same => by cases same)
  obtain ⟨writable, rfl⟩ : ∃ writable, more = [writable] := by
    rw [whole, List.length_cons, Nat.succ_inj] at loaded
    exact List.length_eq_one_iff.mp loaded
  have live : writable ∈ state.pages.live :=
    isolated.owned_live (by rw [whole]; exact List.mem_cons_of_mem _ List.mem_cons_self)
  have large := isolated.large writable live
  have ram := ramRegion_eq large ((isolated.placed live).1.page large)
  obtain ⟨mpu, installed, has⟩ := (Equipped.user stack writable).installs rfl state.mpu
  refine ⟨{ state with system, regions := Function.update state.regions thread (processRegions stack writable), mpu }, ?_,
    next, isolated.pages, isolated.large, holdings ▸ isolated.shares, fun other =>
      ?_, fun other differs user => ?_, fun _ => ?_⟩
  · have last : (state.system.threads thread).ownedPageRanges.getLast? = some writable := by
      rw [whole]
      rfl
    have regions : state.regions thread ++ [dataRegion writable] ++ [romRegion] =
      processRegions stack writable := by
      rw [listed]
      rfl
    simp only [ProtectedState.accompany, last, ProtectedState.enterProcess,
      ProtectedState.addRegion, ram, ProtectedState.install,
      Function.update_self, Function.update_idem, regions, bind, Except.bind, installed]
  · by_cases mine : other = thread
    · subst mine
      dsimp only
      rw [entered, owned other, whole, Function.update_self]
      exact .user stack writable
    · dsimp only
      rw [stays mine, owned other, Function.update_of_ne mine]
      exact isolated.equipped other
  · by_cases mine : other = thread
    · exact .inl (mine ▸ entered)
    · dsimp only
      rw [stays mine]
      exact isolated.levels other differs ((level mine).symm.trans user)
  · refine ⟨thread, ?_, entered, ?_⟩
    · exact (isolated.valid.step_stays permitted executed own).1.trans permitted.2.1
    · dsimp only
      rw [Function.update_self]
      exact has

end Isolated

private theorem State.execute_switches {state : State} {event : SystemEvent}
    (schedules : event.schedules = true) :
    Switches state (state.execute event) := by
  cases event with
  | tick => cases schedules
  | pendSV =>
    have settled : Switched state { state with pendSV := false } :=
      ⟨fun _ => rfl, rfl, rfl, rfl, rfl, rfl⟩
    exact Yields.mono Switches.schedulerNext fun after later => settled.trans later
  | thread thread step =>
    cases step with
    | svc => exact Switches.syscall
    | _ => cases schedules

namespace Isolated
variable {space : Set Nat} {state : ProtectedState} {system : State} {thread : ThreadId}
  {step : ThreadStep}

theorem switch (isolated : Isolated space state) {event : SystemEvent}
    (permitted : state.system.permitted event)
    (schedules : event.schedules = true) (executed : state.system.execute event = .ok system) :
    ∃ after, ({ state with system } : ProtectedState).installActive = .ok after ∧
    Isolated space after := by
  have next := (isolated.valid.execute permitted).value executed
  have point (other : ThreadId) : (system.threads other).point =
    (state.system.threads other).point :=
    ((State.execute_switches schedules).value executed).point other
  obtain ⟨assets, chosen, active, ordinary, control⟩ :=
    isolated.valid.switch_assets permitted schedules executed
  have owned (other : ThreadId) : (system.threads other).ownedPageRanges =
    (state.system.threads other).ownedPageRanges := congrArg Prod.fst (assets other)
  have level (other : ThreadId) : (system.threads other).privileged =
    (state.system.threads other).privileged := congrArg Prod.snd (assets other)
  have setUp : (state.system.threads chosen).point.setUp = true := by
    rw [← point chosen]
    exact (next.sound chosen).running (by simp [State.view, active])
  obtain ⟨mpu, installed, has⟩ := (isolated.equipped chosen).installs setUp state.mpu
  have holdings : (fun thread => (system.threads thread).holdings) = fun thread =>
    (state.system.threads thread).holdings :=
    funext fun other => Thread.holdings_eq (owned other)
      (congrArg ProgramPoint.ranges (point other))
  refine ⟨{ state with system, mpu }, ?_, next, isolated.pages, isolated.large,
    holdings ▸ isolated.shares, fun other => ?_,
    fun other differs user => ?_, fun user => ?_⟩
  · simp only [ProtectedState.installActive, active, ProtectedState.install, installed]
  · dsimp only
    rw [point other, owned other]
    exact isolated.equipped other
  · dsimp only
    rw [point other]
    exact isolated.levels other differs ((level other).symm.trans user)
  · have lowered : (state.system.threads chosen).privileged = false := by
      refine Bool.eq_false_iff.mpr fun privileged => ?_
      rw [if_pos privileged] at control
      cases control.symm.trans user
    have entered : (state.system.threads chosen).point = .userMode := by
      refine (isolated.levels chosen ordinary lowered).resolve_right fun gone => ?_
      rw [(ProgramPoint.setUp_excludes setUp).1] at gone
      cases gone
    exact ⟨chosen, active, (point chosen).trans entered, has⟩

theorem unchanged (isolated : Isolated space state) (next : Valid system)
    (threads : system.threads = state.system.threads)
    (active : system.activeThread = state.system.activeThread)
    (control : system.control = state.system.control) :
    Isolated space { state with system } := by
  refine ⟨next, isolated.pages, isolated.large, ?_, fun other => ?_, fun other => ?_,
    fun user => ?_⟩
  · dsimp only
    rw [threads]
    exact isolated.shares
  · dsimp only
    rw [threads]
    exact isolated.equipped other
  · dsimp only
    rw [threads]
    exact isolated.levels other
  · dsimp only
    rw [threads, active]
    exact isolated.programmed (control.symm.trans user)

/-- The MPU lets a process do what its ranges and the two read-only regions are for, and nothing
else. -/
theorem permits_iff (isolated : Isolated space state) (user : state.unprivileged) :
    ∃ thread, state.system.activeThread = some thread ∧
    (state.system.threads thread).point = .userMode ∧ ∀ access address,
      state.mpu.permits false access address = true ↔
        Lets (∃ range ∈ (state.system.threads thread).ownedPageRanges,
          address ∈ range.cells) address access := by
  obtain ⟨thread, active, point, has⟩ := isolated.programmed user
  obtain ⟨stack, writable, owned, listed⟩ := (isolated.equipped thread).of_user point
  have fine (range : PageRange) (member : range ∈ [stack, writable]) : pagePower ≤ range.power ∧
    range.size ∣ range.base := by
    have live := isolated.owned_live (owned ▸ member)
    exact ⟨isolated.large range live, (isolated.placed live).2⟩
  obtain ⟨stackLarge, stackAligned⟩ := fine stack List.mem_cons_self
  obtain ⟨writableLarge, writableAligned⟩ :=
    fine writable (List.mem_cons_of_mem _ List.mem_cons_self)
  refine ⟨thread, active, point, fun access address => ?_⟩
  rw [listed] at has
  rw [processRegions_permits has stackLarge stackAligned writableLarge writableAligned access address, owned]
  simp only [List.mem_cons, List.not_mem_nil, or_false, exists_eq_or_imp, exists_eq_left]

theorem store (isolated : Isolated space state) {address : Nat} {value : UInt8}
    (allowed : state.pages.permitted (.write address value)) :
    Isolated space { state with pages.allocator.memory := state.pages.allocator.memory.write address value } := by
  have executed : state.pages.execute (.write address value) =
      .ok { state.pages with allocator.memory := state.pages.allocator.memory.write address value } := rfl
  exact ⟨isolated.valid, (isolated.pages.execute PageRange.halving_dvd allowed executed).1,
    isolated.large, isolated.shares,
    isolated.equipped, isolated.levels, isolated.programmed⟩

private theorem write (isolated : Isolated space state) {address : Nat} {value : UInt8}
    (permitted : state.permitted (.write address value)) :
    Isolated space { state with pages.allocator.memory := state.pages.allocator.memory.write address value } := by
  refine isolated.store ?_
  rcases permitted with ⟨user, permits⟩ | ⟨-, allowed⟩
  · obtain ⟨thread, -, -, decides⟩ := isolated.permits_iff user
    obtain ⟨⟨range, owned, inside⟩, -⟩ := (decides .write address).mp permits
    exact ⟨range, isolated.owned_live owned, PageRange.mem_cells.mp inside⟩
  · exact allowed

private theorem receive (isolated : Isolated space state) {address : Nat} {value : UInt8}
    (permitted : state.permitted (.receive address value)) :
    Isolated space { state with pages.allocator.memory := state.pages.allocator.memory.write address value } := by
  have live := (isolated.shares.kept state.inputBuffer (List.mem_cons_of_mem _ List.mem_cons_self)).1
  exact isolated.store ⟨state.inputBuffer, live, permitted⟩

private theorem thread_step (isolated : Isolated space state)
    (permitted : state.system.permitted (.thread thread step))
    (supplied : state.supplied (.thread thread step))
    (executed : state.system.step thread step = .ok system) :
    ∃ after, ({ state with system } : ProtectedState).accompany state.system (.thread thread step) =
      .ok after ∧ Isolated space after := by
  by_cases user : (state.system.threads thread).point = .userMode
  · rcases isolated.valid.step_user permitted user with rfl | ⟨registers, rfl⟩
    · exact isolated.switch permitted rfl executed
    · refine ⟨_, rfl, ?_⟩
      have next := (isolated.valid.execute permitted).value executed
      cases executed
      exact isolated.unchanged next rfl rfl rfl
  · have taken (own : step ≠ .svc) (stays : step ≠ .handOver) :
      KernelStep state thread step system :=
      ⟨permitted, executed, own, stays, user⟩
    cases step with
    | svc => exact absurd permitted.2.2.2.2 user
    | handOver => exact isolated.handOver permitted executed supplied
    | clearDangling victim => exact ⟨_, rfl, isolated.clearDangling (taken nofun nofun)⟩
    | finishDestroy =>
      have destroying : (state.system.threads thread).point.isDestroying = true := permitted.2.2.2.2
      obtain ⟨ranges, point⟩ : ∃ ranges, (state.system.threads thread).point =
        .defaultDestroying ranges := by
        generalize (state.system.threads thread).point = point at destroying
        cases point with
        | defaultDestroying ranges => exact ⟨ranges, rfl⟩
        | _ => cases destroying
      obtain ⟨after, done, kept⟩ := isolated.finishDestroy (taken nofun nofun) point
      refine ⟨after, ?_, kept⟩
      simp only [ProtectedState.accompany, point]
      exact done
    | constructHandler => exact ⟨_, rfl, isolated.constructs (taken nofun nofun) (.inl rfl)⟩
    | construct => exact ⟨_, rfl, isolated.constructs (taken nofun nofun) (.inr rfl)⟩
    | setupHandler stack context =>
      have point : (state.system.threads thread).point = .startupHandler := permitted.2.2.2.2
      have starting := isolated.valid.order.starting thread (by rw [point]; rfl)
      obtain ⟨handler, serves, fresh⟩ := isolated.valid.order.fresh (starting ▸ point)
      have differs : handler ≠ thread := by
        rintro rfl
        cases fresh.symm.trans point
      have same (other : ThreadId) : state.system.systemHandler = some other ↔ other = handler := by
        rw [serves, Option.some.injEq, eq_comm]
      have prepared := isolated.prepares (taken nofun nofun) fresh differs nofun nofun
        (fun other => if_congr (same other) rfl rfl) (fun other => if_congr (same other) rfl rfl)
          rfl nofun rfl supplied.1 supplied.2
      simp only [ProtectedState.accompany, serves, Option.getD_some]
      exact prepared
    | setup child stack context =>
      have creates : (state.system.threads thread).point.creates = true := permitted.2.2.2.2.1
      have child_fresh : (state.system.threads thread).child = .fresh child := permitted.2.2.2.2.2
      have nascent := State.counted (State.active_born isolated.valid.sound permitted.2.1)
        (List.mem_append_right _ (by rw [child_fresh]; exact List.mem_singleton_self _))
      have fresh := ((isolated.valid.sound child).nascent nascent).1
      have differs : child ≠ thread := by
        rintro rfl
        rw [State.view_thread] at fresh
        rw [fresh] at creates
        cases creates
      have entered : (state.system.threads thread).point.entry.setUp = true ∧
        (state.system.threads thread).point.entry ≠ .userMode ∧
          (state.system.threads thread).point.entry.ranges = [] := by
        generalize (state.system.threads thread).point = point
        cases point <;> exact ⟨rfl, nofun, rfl⟩
      exact isolated.prepares (taken nofun nofun) fresh differs nofun nofun (fun _ => rfl)
        (fun _ => rfl) entered.1 entered.2.1 entered.2.2
        supplied.1 supplied.2
    | loadExecutable range =>
        exact isolated.loadExecutable (taken nofun nofun) supplied.2.1 supplied.2.2
    | _ => exact ⟨_, rfl, isolated.calm (taken nofun nofun) rfl⟩

/-- No check of the page allocator or of the functions that program the MPU fails. -/
theorem accompanied (isolated : Isolated space state) {event : SystemEvent}
    (permitted : state.permitted (.system event))
    (executed : state.system.execute event = .ok system) :
    ∃ after, state.execute (.system event) = .ok after ∧ Isolated space after := by
  obtain ⟨allowed, supplied⟩ := permitted
  have next := (isolated.valid.execute allowed).value executed
  have done : ∃ after, ({ state with system } : ProtectedState).accompany state.system event =
    .ok after ∧ Isolated space after := by
    cases event with
    | tick =>
      refine ⟨_, rfl, ?_⟩
      cases executed
      refine isolated.unchanged next ?_ ?_ ?_ <;> unfold State.isrSystick <;> split <;> rfl
    | pendSV => exact isolated.switch allowed rfl executed
    | thread thread step => exact isolated.thread_step allowed supplied executed
  obtain ⟨after, accompanied, kept⟩ := done
  refine ⟨after, ?_, kept⟩
  rw [ProtectedState.execute, executed]
  exact accompanied

theorem execute (isolated : Isolated space state) {event : ProtectedEvent}
    (permitted : state.permitted event) :
    Yields (fun fault => ∃ cause, fault = .kernel cause ∧
      cause.possible = true) (state.execute event) (Isolated space) := by
  cases event with
  | write address value => exact Yields.ok (isolated.write permitted)
  | receive address value => exact Yields.ok (isolated.receive permitted)
  | system event =>
    cases executed : state.system.execute event with
    | error cause =>
      have possible := (isolated.valid.execute permitted.1).fault executed
      rw [ProtectedState.execute, executed]
      exact Yields.error ⟨cause, rfl, possible⟩
    | ok system =>
      obtain ⟨after, whole, kept⟩ := isolated.accompanied permitted executed
      rw [whole]
      exact Yields.ok kept

end Isolated

end PicoOs.Kernel
