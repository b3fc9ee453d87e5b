import Cpplox.Data.Matched
import Cpplox.Semantics.Store
import Cpplox.Vm.TwinLoading

namespace Cpplox

open Data

/-! No program notices when garbage is collected, or which addresses are given out. -/

variable {N : Type} {pairing : Addresses} {platform twinPlatform : Platform N}
  {vm twinVm after twinAfter : VM N}

/-- Everything a machine refers to keeps its partner. -/
theorem VM.Twins.confine (twins : VM.Twins pairing vm twinVm) {gcHeap : GcHeap (Object N)}
    {internedStrings : InternedStrings}
    (kept : ∀ ptr object, gcHeap.valueAt ptr = some object ↔
      vm.gcHeap.valueAt ptr = some object ∧ vm.Kept ptr) :
    VM.Twins (pairing.confine fun ptr _ => vm.Kept ptr) { vm with gcHeap, internedStrings } twinVm where
  objects ptr twinPtr pair := by
    obtain ⟨object, twinObject, found, twinFound, twin⟩ := twins.objects ptr twinPtr pair.1
    refine ⟨object, twinObject, (kept ptr object).mpr ⟨found, pair.2⟩, twinFound, ?_⟩
    exact twin.move vm.stack fun other traced _ paired => ⟨paired, .ref pair.2 found traced⟩
  stack := alike_of_mem twins.stack fun value member _ twin =>
    twin.move fun ptr inside _ paired => ⟨paired, kept_stack vm member ptr inside⟩
  callFrames := alike_of_mem twins.callFrames fun frame member _ twin =>
    ⟨⟨twin.closure, kept_frame vm member⟩, twin.bytecodeIndex, twin.stackBeginIndex⟩
  globals := alike_of_mem twins.globals fun entry member _ both =>
    ⟨⟨both.1, kept_globals vm member _ List.mem_cons_self⟩, both.2.move fun ptr inside _ paired =>
      ⟨paired, kept_globals vm member ptr (List.mem_cons_of_mem _ inside)⟩⟩
  output := twins.output
  nClock := twins.nClock

theorem VM.Paired.collect (paired : VM.Paired pairing vm twinVm) {result : Unit}
    (collects : collect platform vm = .ok result after) : ∃ fewer, VM.Paired fewer after twinVm := by
  have evolves : Evolves platform vm after := final_ok collects ▸ follows_collect
  have interned := evolves.interned paired.interned
  obtain ⟨gcHeap, internedStrings, rfl, kept⟩ := collect_ok paired.interned collects
  exact ⟨_, paired.twins.confine kept, interned, paired.twinInterned⟩

inductive Event (N : Type) where
  | scan (chars : Text)
  | refuse (functions : List (Function (Constant N) Text))
  | run (fuel : Nat) (source : Text)
  | step
  | throw (what : Text)

variable [Number N]

/-- The moves of a session except for its collections, by what they are. -/
inductive Happens (platform : Platform N) : Event N → VM N → VM N → Prop where
  | scan {vm after : VM N} {chars : Text} {ptr : Ptr} : vm.callFrames = [] →
      intern platform chars vm = .ok ptr after → Happens platform (.scan chars) vm after
  | refuse {vm after : VM N} {functions : List (Function (Constant N) Text)} {made : List Ptr} :
      vm.callFrames = [] → loadAll platform [] functions vm = .ok made after →
      Happens platform (.refuse functions) vm after
  | run {vm loaded after : VM N} {fuel : Nat} {source : Text} {made : List Ptr} {root : Ptr}
      {functions : List (Function (Constant N) Text)} : vm.callFrames = [] →
      compile fuel source = .ok functions →
      loadAll platform [] functions vm = .ok (made ++ [root]) loaded →
      start platform root loaded = .ok () after → Happens platform (.run fuel source) vm after
  | step {vm after : VM N} : step platform vm = .ok () after → Happens platform .step vm after
  | throw {vm after : VM N} {what : Text} : step platform vm = .error (.runtimeError what) after →
      Happens platform (.throw what) vm { after with callFrames := [] }

/-- A session and its events, the latest first.  Collections are no events, and take place
between any two instructions if there are any at all. -/
inductive History (platform : Platform N) (collects : Prop) : List (Event N) → VM N → Prop where
  | construct {vm : VM N} : construct platform {} = .ok () vm → History platform collects [] vm
  | happens {events : List (Event N)} {event : Event N} {vm after : VM N} :
      History platform collects events vm → Happens platform event vm after →
      History platform collects (event :: events) after
  | collect {events : List (Event N)} {vm after : VM N} : collects →
      History platform collects events vm →
      vm.callFrames ≠ [] → collect platform vm = .ok () after → History platform collects events after

variable {event : Event N} {events : List (Event N)} {collects twinCollects : Prop}

/-- Every session has its history. -/
theorem Attains.history {H : Type} {observe : VM N → H → H} {nothing observed : H}
    (reaches : Attains platform observe nothing vm observed) :
    ∃ events, History platform True events vm := by
  induction reaches with
  | construct constructs => exact ⟨[], .construct constructs⟩
  | step _ steps ih =>
      obtain ⟨events, history⟩ := ih
      exact ⟨_, .happens history (.step steps)⟩
  | between _ between ih =>
      obtain ⟨events, history⟩ := ih
      cases between with
      | scan idle interns => exact ⟨_, .happens history (.scan idle interns)⟩
      | refuse idle loads => exact ⟨_, .happens history (.refuse idle loads)⟩
      | run idle accepted loads starts => exact ⟨_, .happens history (.run idle accepted loads starts)⟩
      | collect busy collects => exact ⟨_, .collect trivial history busy collects⟩
      | throw fails => exact ⟨_, .happens history (.throw fails)⟩

/-- What happens is determined by the event. -/
theorem Happens.unique (one : Happens platform event vm after)
    (two : Happens platform event vm twinAfter) :
    after = twinAfter := by
  cases one with
  | scan _ interns =>
      cases two with
      | scan _ twinInterns =>
          rw [interns] at twinInterns
          cases twinInterns
          rfl
  | refuse _ loads =>
      cases two with
      | refuse _ twinLoads =>
          rw [loads] at twinLoads
          cases twinLoads
          rfl
  | run _ accepted loads starts =>
      cases two with
      | run _ twinAccepted twinLoads twinStarts =>
          rw [accepted] at twinAccepted
          cases twinAccepted
          rw [loads] at twinLoads
          obtain ⟨same, rfl⟩ := EStateM.Result.ok.inj twinLoads
          obtain ⟨-, same⟩ := List.append_inj' same rfl
          cases same
          rw [starts] at twinStarts
          cases twinStarts
          rfl
  | step steps =>
      cases two with
      | step twinSteps =>
          rw [steps] at twinSteps
          cases twinSteps
          rfl
  | throw fails =>
      cases two with
      | throw twinFails =>
          rw [fails] at twinFails
          cases twinFails
          rfl

omit [Number N] in
theorem VM.Paired.idle (paired : VM.Paired pairing vm twinVm) (idle : vm.callFrames = []) :
    twinVm.callFrames = [] :=
  List.forall₂_nil_left_iff.mp (idle ▸ paired.twins.callFrames)

theorem VM.Paired.happens (paired : VM.Paired pairing vm twinVm)
    (clock : platform.clock = twinPlatform.clock)
    (happens : Happens platform event vm after) :
    ∃ twinAfter later, Happens twinPlatform event twinVm twinAfter ∧
      VM.Paired later after twinAfter := by
  cases happens with
  | scan idle interns =>
      obtain ⟨later, twinPtr, twinAfter, -, twinInterns, reached, -⟩ :=
        (paired.intern _).returned interns
      exact ⟨twinAfter, later, .scan (paired.idle idle) twinInterns, reached⟩
  | refuse idle loads =>
      obtain ⟨later, twinMade, twinAfter, -, twinLoads, reached, -⟩ :=
        (paired.loadAll .nil _).returned loads
      exact ⟨twinAfter, later, .refuse (paired.idle idle) twinLoads, reached⟩
  | run idle accepted loads starts =>
      obtain ⟨later, all, twinLoaded, -, twinLoads, loaded, same⟩ :=
        (paired.loadAll .nil _).returned loads
      obtain ⟨twinMade, twinRoot, rfl, root⟩ := alike_snoc same
      obtain ⟨later, _, twinAfter, -, twinStarts, reached, -⟩ := (loaded.start root).returned starts
      exact ⟨twinAfter, later, .run (paired.idle idle) accepted twinLoads twinStarts, reached⟩
  | step steps =>
      obtain ⟨later, _, twinAfter, -, twinSteps, reached, -⟩ := (paired.step clock).returned steps
      exact ⟨twinAfter, later, .step twinSteps, reached⟩
  | throw fails =>
      obtain ⟨later, twinAfter, twinFails, reached⟩ := (paired.step clock).thrown fails
      exact ⟨_, later, .throw twinFails, reached.withFrames .nil⟩

omit [Number N] in
theorem constructed (twinPlatform : Platform N) (constructs : construct platform {} = .ok () vm) :
    ∃ twinVm pairing, construct twinPlatform {} = .ok () twinVm ∧ VM.Paired pairing vm twinVm := by
  obtain ⟨later, _, twinVm, -, twinConstructs, reached, -⟩ :=
    VM.Paired.initial.construct.returned constructs
  exact ⟨twinVm, later, twinConstructs, reached⟩

/-- Two sessions with the same events are in paired states, whatever they collected. -/
theorem History.paired (clock : platform.clock = twinPlatform.clock)
    (history : History platform collects events vm)
    (twinHistory : History twinPlatform twinCollects events twinVm) :
    ∃ pairing, VM.Paired pairing vm twinVm := by
  induction history generalizing twinVm with
  | @construct vm constructs =>
      generalize nothing : ([] : List (Event N)) = events at twinHistory
      induction twinHistory with
      | construct twinConstructs =>
          obtain ⟨made, pairing, again, reached⟩ := constructed twinPlatform constructs
          rw [again] at twinConstructs
          cases twinConstructs
          exact ⟨pairing, reached⟩
      | happens => cases nothing
      | collect _ _ _ twinCollects ih =>
          obtain ⟨pairing, reached⟩ := ih nothing
          obtain ⟨fewer, reached⟩ := reached.swap.collect twinCollects
          exact ⟨fewer.swap, reached.swap⟩
  | @happens earlier event vm after _ happens ih =>
      generalize same : event :: earlier = events at twinHistory
      induction twinHistory with
      | construct => cases same
      | happens twinHistory twinHappens =>
          cases same
          obtain ⟨pairing, reached⟩ := ih twinHistory
          obtain ⟨found, later, again, reached⟩ := reached.happens clock happens
          obtain rfl := again.unique twinHappens
          exact ⟨later, reached⟩
      | collect _ _ _ twinCollects twinIh =>
          obtain ⟨pairing, reached⟩ := twinIh same
          obtain ⟨fewer, reached⟩ := reached.swap.collect twinCollects
          exact ⟨fewer.swap, reached.swap⟩
  | collect _ _ _ collects ih =>
      obtain ⟨pairing, reached⟩ := ih twinHistory
      exact reached.collect collects

/-- Whatever happens can happen without any collection. -/
theorem History.plain (clock : platform.clock = twinPlatform.clock)
    (history : History platform collects events vm) :
    ∃ twinVm, History twinPlatform False events twinVm := by
  induction history with
  | construct constructs =>
      obtain ⟨twinVm, -, twinConstructs, -⟩ := constructed twinPlatform constructs
      exact ⟨twinVm, .construct twinConstructs⟩
  | happens history happens ih =>
      obtain ⟨twinVm, twinHistory⟩ := ih
      obtain ⟨pairing, reached⟩ := history.paired clock twinHistory
      obtain ⟨twinAfter, -, twinHappens, -⟩ := reached.happens clock happens
      exact ⟨twinAfter, .happens twinHistory twinHappens⟩
  | collect _ _ _ _ ih => exact ih

/-- The globals as they print, with their names. -/
def VM.shown (vm : VM N) : List (Text × Text) :=
  vm.globals.map fun entry => (vm.gcHeap.textOf (.string entry.1), vm.gcHeap.textOf entry.2)

/-- The two machines have printed the same, hold the same up to addresses, and whatever one
of them does next, or throws, the other does as well. -/
structure Unnoticed (platform twinPlatform : Platform N) (vm twinVm : VM N) : Prop where
  output : vm.output = twinVm.output
  globals : vm.shown = twinVm.shown
  contents : ∃ pairing, VM.Twins pairing vm twinVm
  happens : ∀ event, (∃ after, Happens platform event vm after) ↔
    ∃ twinAfter, Happens twinPlatform event twinVm twinAfter
  throws : ∀ error, (∃ after, step platform vm = .error error after) ↔
    ∃ twinAfter, step twinPlatform twinVm = .error error twinAfter

theorem VM.Twins.textOf (twins : VM.Twins pairing vm twinVm) {value twinValue : Value N}
    (twin : value.Twin pairing twinValue) :
    vm.gcHeap.textOf value = twinVm.gcHeap.textOf twinValue := by
  have heaps : VM.Twins pairing { gcHeap := vm.gcHeap } { gcHeap := twinVm.gcHeap } :=
    ⟨twins.objects, .nil, .nil, .nil, rfl, rfl⟩
  cases heaps.valueText twin with
  | returns found twinFound same => simp only [GcHeap.textOf, found, twinFound, same]
  | throws fails twinFails => simp only [GcHeap.textOf, fails, twinFails]

theorem VM.Twins.shown (twins : VM.Twins pairing vm twinVm) : vm.shown = twinVm.shown := by
  have same := twins.globals.imp le_rfl fun value twinValue twin => twins.textOf twin
  refine (matched_map ?_).symm
  refine List.Forall₂.imp (fun entry twinEntry both => ?_) same
  rw [both.2, twins.textOf (.string both.1)]

theorem VM.Paired.unnoticed (paired : VM.Paired pairing vm twinVm)
    (clock : platform.clock = twinPlatform.clock) :
    Unnoticed platform twinPlatform vm twinVm where
  output := paired.twins.output
  globals := paired.twins.shown
  contents := ⟨pairing, paired.twins⟩
  happens event := by
    constructor
    · rintro ⟨after, happens⟩
      obtain ⟨twinAfter, -, twinHappens, -⟩ := paired.happens clock happens
      exact ⟨twinAfter, twinHappens⟩
    · rintro ⟨twinAfter, twinHappens⟩
      obtain ⟨after, -, happens, -⟩ := paired.swap.happens clock.symm twinHappens
      exact ⟨after, happens⟩
  throws error := by
    constructor
    · rintro ⟨after, fails⟩
      obtain ⟨-, twinAfter, twinFails, -⟩ := (paired.step clock).thrown fails
      exact ⟨twinAfter, twinFails⟩
    · rintro ⟨twinAfter, twinFails⟩
      obtain ⟨-, after, fails, -⟩ := (paired.swap.step clock.symm).thrown twinFails
      exact ⟨after, fails⟩

/-- Whenever a session collects garbage, and whichever addresses its machine gives out: the
same events can happen without any collection, and every session in which they do, with
collections or without, cannot be told from it. -/
theorem collections_unnoticed (clock : platform.clock = twinPlatform.clock)
    (history : History platform collects events vm) :
    (∃ twinVm, History twinPlatform False events twinVm) ∧
      ∀ {twinCollects : Prop} {twinVm : VM N}, History twinPlatform twinCollects events twinVm →
        Unnoticed platform twinPlatform vm twinVm := by
  refine ⟨history.plain clock, fun twinHistory => ?_⟩
  obtain ⟨pairing, reached⟩ := history.paired clock twinHistory
  exact reached.unnoticed clock

/-- A new machine runs a source, collects, and goes on. -/
theorem history_collected {fuel count more : Nat} {source : Text}
    (accepted : (compile fuel source : Except Error (List (Function (Constant N) Text))).isOk = true)
    (done : thrown (do
      construct platform
      runFor platform (functionsOf fuel source) count) ({} : VM N) = none)
    (busy : (demonstrate platform fuel source count).callFrames.length = 1)
    (goesOn : thrown (do
      collect platform
      iterate platform more) (demonstrate platform fuel source count) = none) :
    ∃ events, History platform True events (final (do
      collect platform
      iterate platform more) (demonstrate platform fuel source count)) := by
  obtain ⟨_, reaches⟩ := attains_demonstrate (fun (_ : VM N) => Nat.succ) 0 accepted done
  obtain ⟨_, middle, collects, runs⟩ := VmM.bind_ok.mp (run_of_thrown goesOn)
  have running : (demonstrate platform fuel source count).callFrames ≠ [] :=
    fun idle => by simp [idle] at busy
  obtain ⟨_, reached⟩ := (reaches.between (.collect running collects)).iterate runs
  exact reached.history

/-- A string is collected, made again at another address, and printed. -/
theorem collections_unnoticed_again :
    let source := "\"a\" + \"b\"; print \"a\" + \"b\";".toList
    let before : VM Int := demonstrate Platform.above 60 source 4
    let later := do
      collect Platform.above
      iterate Platform.above 4
    (final (collect Platform.above) before).gcHeap.allPtrs.length < before.gcHeap.allPtrs.length ∧
      ∃ events twinVm, History Platform.above True events (final later before) ∧
        History Platform.above False events twinVm ∧ twinVm.output = ["ab".toList] := by
  intro source before later
  refine ⟨by decide +kernel, ?_⟩
  obtain ⟨events, history⟩ : ∃ events, History Platform.above True events (final later before) :=
    history_collected (by decide +kernel) (by decide +kernel) (by decide +kernel) (by decide +kernel)
  have ⟨⟨twinVm, plain⟩, unnoticed⟩ : (∃ twinVm, History Platform.above False events twinVm) ∧ _ :=
    collections_unnoticed rfl history
  refine ⟨events, twinVm, history, plain, ?_⟩
  have printed : (final later before).output = ["ab".toList] := by decide +kernel
  rw [← printed, (unnoticed plain).output]

/-- A session with its collections is one that reaches its state. -/
theorem History.attains {H : Type} (observe : VM N → H → H) (nothing : H)
    (history : History platform collects events vm) :
    ∃ observed, Attains platform observe nothing vm observed := by
  induction history with
  | construct constructs => exact ⟨nothing, .construct constructs⟩
  | happens _ happens ih =>
      obtain ⟨observed, reaches⟩ := ih
      cases happens with
      | scan idle interns => exact ⟨_, reaches.between (.scan idle interns)⟩
      | refuse idle loads => exact ⟨_, reaches.between (.refuse idle loads)⟩
      | run idle accepted loads starts => exact ⟨_, reaches.between (.run idle accepted loads starts)⟩
      | step steps => exact ⟨_, reaches.step steps⟩
      | throw fails => exact ⟨_, reaches.between (.throw fails)⟩
  | collect _ _ busy collects ih =>
      obtain ⟨observed, reaches⟩ := ih
      exact ⟨observed, reaches.between (.collect busy collects)⟩

/-- Without collections a session is determined by its events. -/
theorem History.unique (history : History platform False events vm)
    (other : History platform False events twinVm) : vm = twinVm := by
  induction history generalizing twinVm with
  | construct constructs =>
      cases other with
      | construct again =>
          rw [constructs] at again
          cases again
          rfl
      | collect never => exact never.elim
  | happens _ happens ih =>
      cases other with
      | happens other again =>
          obtain rfl := ih other
          exact happens.unique again
      | collect never => exact never.elim
  | collect never => exact never.elim

/-- What a program dereferences is alive with the contents it has where nothing is ever collected:
every session can take place without its collections, and then prints the same, leaves the same
globals and throws the same. -/
theorem collections_invisible (history : History platform True events vm) :
    vm.Typed ∧ (∀ after, step platform vm ≠ .error .undefined after) ∧
    ∃ plain, History platform False events plain ∧ vm.output = plain.output ∧ vm.shown = plain.shown ∧
      (∃ pairing, VM.Twins pairing vm plain) ∧
      (∀ error, (∃ after, step platform vm = .error error after) ↔
        ∃ after, step platform plain = .error error after) ∧
      ∀ other, History platform False events other → other = plain := by
  obtain ⟨_, reaches⟩ := history.attains (fun _ => Nat.succ) 0
  obtain ⟨plain, again⟩ : ∃ plain, History platform False events plain := history.plain rfl
  obtain ⟨pairing, paired⟩ := history.paired rfl again
  have unnoticed : Unnoticed platform platform vm plain := paired.unnoticed rfl
  refine ⟨reaches.sound.typed, fun after fails => ?_, plain, again, unnoticed.output,
    unnoticed.globals, unnoticed.contents, unnoticed.throws, fun other same => same.unique again⟩
  obtain ⟨_, _, -, -, throws⟩ :=
    step_confined reaches.sound reaches.standing reaches.declares _ after fails
  exact throws.defined rfl

/-- The instance and its class are still there after a collection between its creation and the
call of its method. -/
theorem collections_invisible_method :
    let source := "class A { f() { print 1; } } A().f();".toList
    let before : VM Int := demonstrate Platform.above 60 source 7
    let later := do
      collect Platform.above
      iterate Platform.above 8
    (final (collect Platform.above) before).gcHeap.allPtrs.length < before.gcHeap.allPtrs.length ∧
      ∃ events plain, History Platform.above True events (final later before) ∧
        History Platform.above False events plain ∧ plain.output = ["1".toList] := by
  intro source before later
  refine ⟨by decide +kernel, ?_⟩
  obtain ⟨events, history⟩ : ∃ events, History Platform.above True events (final later before) :=
    history_collected (by decide +kernel) (by decide +kernel) (by decide +kernel) (by decide +kernel)
  obtain ⟨-, -, plain, again, same, -⟩ := collections_invisible history
  have printed : (final later before).output = ["1".toList] := by decide +kernel
  exact ⟨events, plain, history, again, same.symm.trans printed⟩

end Cpplox
