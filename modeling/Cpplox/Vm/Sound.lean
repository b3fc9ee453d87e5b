import Cpplox.Vm.Throws

namespace Cpplox

open Data

/-! What holds of the heap in every state of a session. -/

variable {N : Type} [Number N] {platform : Platform N} {vm after : VM N} {result : Unit}

structure VM.Sound (vm : VM N) : Prop where
  interned : vm.Interned
  typed : vm.Typed
  loaded : vm.Loaded

theorem VM.Sound.advanced (sound : vm.Sound) {frame : Frame} {callers : List Frame}
    (frames : vm.callFrames = frame :: callers) (size : Nat) :
    (vm.advanced frame callers size).Sound where
  interned := ⟨sound.interned.ready, sound.interned.waiting, sound.interned.tables⟩
  typed := sound.typed.extend (.refl _) sound.typed.heap
    (fun other member => by
      rcases List.mem_cons.mp member with rfl | old
      · exact .inr (sound.typed.frames frame (frames ▸ List.mem_cons_self))
      · exact .inl (frames ▸ List.mem_cons_of_mem _ old))
    (fun _ => .inl) fun _ => .inl
  loaded := sound.loaded

/-- Frames may be dropped. -/
theorem VM.Sound.withFrames (sound : vm.Sound) {callFrames : List Frame}
    (fewer : ∀ frame ∈ callFrames, frame ∈ vm.callFrames) :
    ({ vm with callFrames } : VM N).Sound where
  interned := ⟨sound.interned.ready, sound.interned.waiting, sound.interned.tables⟩
  typed := sound.typed.extend (.refl _) sound.typed.heap (fun frame member => .inl (fewer frame member))
    (fun _ => .inl) fun _ => .inl
  loaded := sound.loaded

theorem VM.Loads.sound (loads : vm.Loads after) (sound : vm.Sound) : after.Sound :=
  ⟨loads.interned, loads.typed, loads.loaded sound.loaded⟩

theorem start_sound {function : Ptr} (sound : vm.Sound)
    (code : ∃ program : Program N, ∃ lowered ∈ program.functions,
      Embodies vm.gcHeap program.functions lowered function)
    (starts : start platform function vm = .ok result after) : after.Sound := by
  obtain ⟨program, lowered, member, embodies⟩ := code
  have live : vm.gcHeap.HasKind function .function := by
    cases embodies with
    | intro found => exact ⟨_, found, rfl⟩
  have typed := start_typed sound.typed live starts
  obtain rfl := start_ok.mp starts
  have made : (vm.made platform (.closure { function })).Interned := sound.interned.made nofun
  refine ⟨⟨made.ready, made.waiting, made.tables⟩, typed, ?_⟩
  refine sound.loaded.extend (extends_made (.closure { function })) fun ptr closure absent found => ?_
  obtain ⟨-, same⟩ := new_of_made absent found
  cases same
  exact ⟨program, lowered, member, embodies.extend (extends_made _)⟩

theorem construct_sound (constructs : construct platform ({} : VM N) = .ok result after) :
    after.Sound := by
  have typed := construct_typed interned_initial typed_initial constructs
  obtain ⟨name, named, interns, rfl⟩ := construct_ok constructs
  have made : (named.made platform .nativeFn).Interned :=
    (intern_interned interned_initial interns).made nofun
  refine ⟨⟨made.ready, made.waiting, made.tables⟩, typed, fun ptr closure found => ?_⟩
  have origin : named.gcHeap.valueAt ptr = some (.closure closure) ∨
      Object.closure closure = (.nativeFn : Object N) := made_old found
  rcases origin with old | same
  · have string := new_of_intern (by simp) interns old
    cases string
  · cases same

theorem Fails.sound {lost : Nat} (fails : Fails platform vm lost after) (sound : vm.Sound) :
    after.Sound := by
  obtain ⟨count, -, middle, rfl⟩ := fails
  have dropped {vm : VM N} (sound : vm.Sound) :
      ({ vm with stack := vm.stack.drop count } : VM N).Sound :=
    ⟨⟨sound.interned.ready, sound.interned.waiting, sound.interned.tables⟩,
      sound.typed.withStack fun value member => .inl (List.mem_of_mem_drop member), sound.loaded⟩
  rcases middle with rfl | ⟨ptr, interns⟩
  · exact dropped sound
  · exact dropped ((intern_loads sound.interned sound.typed interns).sound sound)

omit [Number N] in
/-- What an instruction fetched in a frame refers to is typed. -/
theorem VM.Fetches.constants {frame : Frame} {closure : Closure} {function : HeapFunction N}
    {fetched : Fetched N} (fetches : vm.Fetches frame closure function fetched) (typed : vm.Typed) :
    ∀ value ∈ fetched.activation.chunk.constants, value.Typed vm.gcHeap := by
  rw [fetches.activation]
  exact (typed.heap _ _ fetches.runs.code).2.1

theorem step_sound (sound : vm.Sound) (steps : step platform vm = .ok result after) :
    after.Sound := by
  have interned : after.Interned := by
    have follows : Follows platform (step platform) vm := follows_step
    rw [Follows, final_ok steps] at follows
    exact follows.interned sound.interned
  rcases step_ok steps with ⟨-, rfl⟩ | ⟨frame, callers, closure, function, frames, -, outcome⟩
  · exact sound
  · rcases outcome with ⟨-, rfl⟩ | ⟨fetched, fetches, effect⟩
    · exact sound.withFrames fun other member => frames ▸ List.mem_cons_of_mem _ member
    · have moved := sound.advanced frames fetched.size
      have live : (vm.advanced frame callers fetched.size).gcHeap.valueAt fetched.activation.closure =
          some (.closure closure) := by rw [fetches.activation]; exact fetches.runs.live
      exact ⟨interned, effect.typed moved.typed moved.interned (fetches.constants sound.typed),
        effect.loaded moved.loaded live fetches.runs.code (by rw [fetches.activation])⟩

theorem between_sound (sound : vm.Sound) (between : Between platform vm after) : after.Sound := by
  cases between with
  | scan _ interns => exact (intern_loads sound.interned sound.typed interns).sound sound
  | refuse _ loads => exact (loadAll_ok sound.interned sound.typed (by simp) loads).1.sound sound
  | run _ accepted loads starts =>
      obtain ⟨program, -, rfl⟩ := Program.of_compile accepted
      have loaded := (loadAll_ok sound.interned sound.typed (by simp) loads).1
      have embodies := loadAll_embodies (List.nil_append _).symm sound.interned sound.typed .nil loads
      obtain ⟨lowered, at_, root⟩ := matched_right embodies (List.getElem?_concat_length)
      exact start_sound (loaded.sound sound) ⟨program, lowered, List.mem_of_getElem? at_, root⟩ starts
  | collect _ collects =>
      have follows : Follows platform (collect platform) vm := follows_collect
      rw [Follows, final_ok collects] at follows
      exact ⟨follows.interned sound.interned, collect_typed sound.interned sound.typed collects,
        collect_loaded sound.interned sound.loaded collects⟩
  | throw failed =>
      obtain ⟨frame, callers, _, _, fetched, frames, -, fails⟩ := step_error failed
      exact (fails.sound (sound.advanced frames fetched.size)).withFrames (by simp)

/-- Every state a session reaches is sound. -/
theorem Attains.sound {H : Type} {observe : VM N → H → H} {nothing observed : H}
    (reaches : Attains platform observe nothing vm observed) : vm.Sound := by
  induction reaches with
  | construct constructs => exact construct_sound constructs
  | step _ steps ih => exact step_sound ih steps
  | between _ between ih => exact between_sound ih between

end Cpplox
