import Dxgmx.Fs.FileCreation
import Dxgmx.Fs.VnodeReferences

open Library

namespace Dxgmx

variable {mounts : Mounts} {s s' : Session} {call : FileCall}

/-- A reference is given back, and the file is removed if that was due. -/
theorem Mounts.Sound.decrease (sound : mounts.Sound) {addr : VirtualNodeRef} {vnode : VirtualNode}
    (found : mounts.vnode addr = some vnode) (held : 0 < vnode.refCount) :
    ∃ mounts', vnodeDecreaseRefcount addr mounts = .ok mounts' ∧ mounts'.Sound := by
  obtain ⟨inside, -⟩ := sound.apart.vnode.mp found
  obtain ⟨fs, member, own⟩ := mem_vnodes.mp inside
  have files := (sound.each fs member).files vnode own
  have stored : (mounts.setVnode { vnode with refCount := vnode.refCount - 1 }).Sound :=
    sound.setVnode inside ⟨rfl, rfl, rfl, rfl⟩ files
  unfold vnodeDecreaseRefcount
  rw [found]
  dsimp only
  rw [if_neg (Nat.ne_of_gt held)]
  split
  · rename_i due
    exact stored.rmnode (mem_setVnode_self inside rfl) (files due.2)
  · exact ⟨_, rfl, stored⟩

/-- A call with a path that fits, whose file can be made if it has to be. -/
def Session.Creates (s : Session) : FileCall → Prop
  | .openFile _ answers _ flags _ => ∀ path, answers.path = .ok path →
      path.length < pathMax ∧ Creatable path flags s.vfs.world
  | _ => True

theorem Session.Counted.comes_back (counted : s.Counted) (sound : s.vfs.world.Sound)
    (creates : s.Creates call) : ∃ s', FileStep s call s' ∧ s'.vfs.world.Sound := by
  cases call with
  | openFile pid answers mem flags mode =>
    obtain ⟨st, proc, vfs, done, after, -⟩ := @Mounts.Sound.open_returns answers mem flags mode
      (s.procs pid) s.vfs sound (fun path here => (creates path here).1)
      fun path here => (creates path here).2
    refine ⟨⟨vfs, Function.update s.procs pid proc⟩, ⟨st, ?_⟩, after⟩
    show (mountedOpen answers mem flags mode (s.procs pid) s.vfs >>= _) = _
    rw [done]
    rfl
  | close pid answers fd =>
    have back : ∃ st proc vfs, mountedClose answers fd (s.procs pid) s.vfs = .ok (st, proc, vfs) ∧
        vfs.world.Sound := by
      unfold mountedClose vfsClose
      split
      · exact ⟨_, _, _, rfl, sound⟩
      · split
        · exact ⟨_, _, _, rfl, sound⟩
        · rename_i sysfd found
          obtain ⟨vnode, there, held⟩ := counted.referenced.live _ _ sysfd found
          obtain ⟨mounts, decreased, after⟩ := sound.decrease there held
          have given : (mountedFileSystems answers).vnodeDecreaseRefcount sysfd.vnode s.vfs.world =
              .ok mounts := decreased
          rw [given]
          exact ⟨_, _, _, rfl, after⟩
    obtain ⟨st, proc, vfs, done, after⟩ := back
    refine ⟨⟨vfs, Function.update s.procs pid proc⟩, ⟨st, ?_⟩, after⟩
    show (mountedClose answers fd (s.procs pid) s.vfs >>= _) = _
    rw [done]
    rfl
  | rmfile path =>
    obtain ⟨st, mounts, done, after, -⟩ := sound.rmfile_returns path
    refine ⟨{ s with vfs := { s.vfs with world := mounts } }, ⟨st, ?_⟩, after⟩
    show (mountedRmfile path s.vfs.world >>= _) = _
    rw [done]
    rfl

theorem FileStep.unique {s'' : Session} (first : FileStep s call s') (second : FileStep s call s'') :
    s' = s'' := by
  obtain ⟨st, done⟩ := first
  obtain ⟨st', again⟩ := second
  rw [done] at again
  cases again
  rfl

/-- In every run of calls whose files can be made, each further such call comes back. -/
theorem calls_come_back {start : Session} {calls : List FileCall} (started : start.Started)
    (sound : start.vfs.world.Sound)
    (run : Run (fun s call s' => FileStep s call s' ∧ s.Creates call) start calls s)
    (creates : s.Creates call) : ∃ s', FileStep s call s' ∧ s'.vfs.world.Sound := by
  have both : s.Counted ∧ s.vfs.world.Sound := by
    refine run.invariant (fun s => s.Counted ∧ s.vfs.world.Sound) ?_ ⟨started.counted, sound⟩
    rintro s call s' ⟨step, creates⟩ ⟨counted, sound⟩
    obtain ⟨next, done, after⟩ := counted.comes_back sound creates
    rw [← step.unique done] at after
    exact ⟨(counted.step step).1, after⟩
  exact both.1.comes_back both.2 creates

end Dxgmx
