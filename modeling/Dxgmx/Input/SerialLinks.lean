import Dxgmx.Input.Serialio

open Library

namespace Dxgmx

open Serialio

/-- What is allocated is registered, no ids are taken twice, and every linked device has a registered
    driver that it matches. -/
structure Serialio.Sound (s : Serialio) : Prop where
  drvs : s.drivers.Listed s.serialDrvs
  devs : s.devices.Listed s.serialDevs
  majors : s.drivers.Unique fun drv other => drv.maj ≠ 0 ∧ drv.maj = other.maj
  names : s.drivers.Unique fun drv other => drv.name ≠ none ∧ drv.name = other.name
  devNames : s.devices.Unique fun dev other =>
    dev.name ≠ none ∧ dev.name = other.name ∧ dev.min = other.min
  devMajors : s.devices.Unique fun dev other =>
    dev.maj ≠ 0 ∧ dev.maj = other.maj ∧ dev.min = other.min
  links : ∀ addr dev, s.devices addr = some dev → dev.driver ≠ 0 →
    ∃ drv, s.drivers dev.driver = some drv ∧ serialioCheckMatch dev drv = .ok true

/-- Where a driver goes, a callback that does not unlink its device says so with a negative
    errno. -/
def SerialCall.UnlinksOrRefuses (call : SerialCall) (s : Serialio) : Prop :=
  match call with
  | .deleteDrv unlink drv =>
    (∃ addr dev, s.devices addr = some dev ∧ dev.driver = drv ∧ unlink addr < 0) ∨
      ∀ addr dev, s.devices addr = some dev → dev.driver = drv → unlink addr = 0
  | _ => True

section Entries

variable {β : Type} {hit : β → Bool} {blocks : Blocks β} {addrs : List Nat}

theorem firstEntry_none (done : firstEntry hit blocks addrs = .ok none) :
    ∀ addr ∈ addrs, ∀ entry, blocks addr = some entry → hit entry = false := by
  induction addrs with
  | nil => simp
  | cons addr rest ih =>
    rcases Exec.bind_ok.mp done with ⟨entry, loaded, step⟩
    intro other member found live
    by_cases now : hit entry
    · rw [if_pos now] at step
      cases step
    · rw [if_neg now] at step
      rcases List.mem_cons.mp member with rfl | later
      · have same := (Blocks.load_ok.mp loaded).symm.trans live
        cases same
        simpa using now
      · exact ih step other later found live

theorem firstEntry_missed (done : (firstEntry hit blocks addrs).map Option.isSome = .ok false) :
    ∀ addr ∈ addrs, ∀ entry, blocks addr = some entry → hit entry = false := by
  cases found : firstEntry hit blocks addrs with
  | error stop =>
    rw [found] at done
    cases done
  | ok first =>
    rw [found] at done
    cases first with
    | none => exact firstEntry_none found
    | some addr => cases done

end Entries

section Links

variable {s s' : Serialio} {addr : Nat} {device : SerialIODevice}

theorem Serialio.Sound.relink (sound : s.Sound) (here : s.devices addr = some device) {driver : Nat}
    (fits : driver ≠ 0 → ∃ drv, s.drivers driver = some drv ∧
      serialioCheckMatch device drv = .ok true) :
    Serialio.Sound { s with
      devices := Function.update s.devices addr (some { device with driver := driver }) } where
  drvs := sound.drvs
  devs := sound.devs.store here _
  majors := sound.majors
  names := sound.names
  devNames := sound.devNames.store here (fun _ => id) fun _ => id
  devMajors := sound.devMajors.store here (fun _ => id) fun _ => id
  links := by
    intro a dev found linked
    dsimp only at found
    by_cases same : a = addr
    · rw [same, Function.update_self] at found
      cases found
      exact fits linked
    · rw [Function.update_of_ne same] at found
      exact sound.links a dev found linked

theorem Serialio.Sound.link (sound : s.Sound) {tryLink st : Int} {drv : Nat}
    {driver : SerialIODriver} (here : s.devices addr = some device)
    (registered : s.drivers drv = some driver) (hit : serialioCheckMatch device driver = .ok true)
    (done : serialioLink tryLink addr drv device s = .ok (st, s')) : s'.Sound := by
  unfold serialioLink at done
  split at done
  · cases done
    exact sound
  · rcases Exec.bind_ok.mp done with ⟨devices, stored, rest⟩
    rcases Blocks.store_ok.mp stored with ⟨-, rfl⟩
    cases rest
    exact sound.relink here fun _ => ⟨driver, registered, hit⟩

theorem Serialio.Sound.tryDevLoop (sound : s.Sound) {tryLink st : Int}
    (here : s.devices addr = some device) {drvs : List Nat}
    (done : serialioTryDevLoop tryLink addr device s drvs = .ok (st, s')) : s'.Sound := by
  induction drvs with
  | nil =>
    cases done
    exact sound
  | cons drv rest ih =>
    rcases Exec.bind_ok.mp done with ⟨driver, loaded, step⟩
    rcases Exec.bind_ok.mp step with ⟨hit, matched, step⟩
    cases hit with
    | true => exact sound.link here (Blocks.load_ok.mp loaded) matched step
    | false => exact ih step

theorem Serialio.Sound.tryDev (sound : s.Sound) {tryLink st : Int}
    (done : s.serialioTryDev tryLink addr = .ok (st, s')) : s'.Sound := by
  rcases Exec.bind_ok.mp done with ⟨device, loaded, step⟩
  rcases assert_bind_ok.mp step with ⟨-, step⟩
  exact sound.tryDevLoop (Blocks.load_ok.mp loaded) step

theorem Serialio.Sound.tryDrvLoop (sound : s.Sound) {tryLink st : Int} {drv : Nat}
    {driver : SerialIODriver} (registered : s.drivers drv = some driver) {devs : List Nat}
    (done : serialioTryDrvLoop tryLink drv driver s devs = .ok (st, s')) : s'.Sound := by
  induction devs with
  | nil =>
    cases done
    exact sound
  | cons dev rest ih =>
    rcases Exec.bind_ok.mp done with ⟨device, loaded, step⟩
    split at step
    · exact ih step
    · rcases Exec.bind_ok.mp step with ⟨hit, matched, step⟩
      cases hit with
      | true => exact sound.link (Blocks.load_ok.mp loaded) registered matched step
      | false => exact ih step

theorem Serialio.Sound.tryDrv (sound : s.Sound) {tryLink st : Int} {drv : Nat}
    (done : s.serialioTryDrv tryLink drv = .ok (st, s')) : s'.Sound := by
  rcases Exec.bind_ok.mp done with ⟨driver, loaded, step⟩
  exact sound.tryDrvLoop (Blocks.load_ok.mp loaded) step

end Links

section Registration

variable {s s' : Serialio} {addr : Nat}

theorem serialioNew_ok {β : Type} {mem : SerialMem} {zeroed : β} {blocks blocks' : Blocks β}
    {list list' : List Nat}
    (done : serialioNew mem zeroed blocks list = .ok (addr, blocks', list')) :
    (addr = 0 ∧ (mem.block = 0 ∨ mem.node = false) ∧ blocks' = blocks ∧ list' = list) ∨
      (addr = mem.block ∧ mem.block ≠ 0 ∧ mem.node = true ∧ blocks mem.block = none ∧
        blocks' = Function.update blocks mem.block (some zeroed) ∧ list' = list ++ [mem.block]) := by
  unfold serialioNew at done
  split at done
  · rename_i none
    cases done
    exact .inl ⟨rfl, .inl none, rfl, rfl⟩
  · rename_i some_block
    rcases Exec.bind_ok.mp done with ⟨added, allocated, step⟩
    rcases Blocks.alloc_ok.mp allocated with ⟨unused, rfl⟩
    split at step
    · rename_i refused
      rcases Exec.bind_ok.mp step with ⟨freed, left, step⟩
      rcases Blocks.free_ok.mp left with ⟨-, rfl⟩
      cases step
      rw [Function.update_idem, ← unused, Function.update_eq_self]
      exact .inl ⟨rfl, .inr refused, rfl, rfl⟩
    · rename_i linked
      cases step
      exact .inr ⟨rfl, some_block, (Bool.not_eq_false _).mp linked, unused, rfl, rfl⟩

theorem Serialio.Sound.addDrv (sound : s.Sound) {drv : SerialIODriver}
    (unused : s.drivers addr = none)
    (newMaj : ∀ a x, s.drivers a = some x → drv.maj ≠ 0 → x.maj ≠ drv.maj)
    (newName : ∀ a x, s.drivers a = some x → drv.name ≠ none → x.name ≠ drv.name) :
    Serialio.Sound { s with
      drivers := Function.update s.drivers addr (some drv)
      serialDrvs := s.serialDrvs ++ [addr] } where
  drvs := sound.drvs.add unused drv
  devs := sound.devs
  majors := by
    apply sound.majors.add
    intro a x here
    refine ⟨?_, ?_⟩
    · intro taken
      exact newMaj a x here (by rw [← taken.2]; exact taken.1) taken.2
    · intro taken
      exact newMaj a x here taken.1 taken.2.symm
  names := by
    apply sound.names.add
    intro a x here
    refine ⟨?_, ?_⟩
    · intro taken
      exact newName a x here (by rw [← taken.2]; exact taken.1) taken.2
    · intro taken
      exact newName a x here taken.1 taken.2.symm
  devNames := sound.devNames
  devMajors := sound.devMajors
  links := by
    intro a dev found linked
    rcases sound.links a dev found linked with ⟨x, registered, hit⟩
    have other : dev.driver ≠ addr := by
      intro same
      rw [same, unused] at registered
      cases registered
    exact ⟨x, by rw [← registered]; exact Function.update_of_ne other _ _, hit⟩

theorem Serialio.Sound.addDev (sound : s.Sound) {dev : SerialIODevice}
    (unused : s.devices addr = none) (unlinked : dev.driver = 0)
    (newName : ∀ a x, s.devices a = some x → dev.name ≠ none → x.name = dev.name →
      x.min ≠ dev.min)
    (newMaj : ∀ a x, s.devices a = some x → dev.maj ≠ 0 → x.maj = dev.maj → x.min ≠ dev.min) :
    Serialio.Sound { s with
      devices := Function.update s.devices addr (some dev)
      serialDevs := s.serialDevs ++ [addr] } where
  drvs := sound.drvs
  devs := sound.devs.add unused dev
  majors := sound.majors
  names := sound.names
  devNames := by
    apply sound.devNames.add
    intro a x here
    refine ⟨?_, ?_⟩
    · intro taken
      exact newName a x here (by rw [← taken.2.1]; exact taken.1) taken.2.1 taken.2.2
    · intro taken
      exact newName a x here taken.1 taken.2.1.symm taken.2.2.symm
  devMajors := by
    apply sound.devMajors.add
    intro a x here
    refine ⟨?_, ?_⟩
    · intro taken
      exact newMaj a x here (by rw [← taken.2.1]; exact taken.1) taken.2.1 taken.2.2
    · intro taken
      exact newMaj a x here taken.1 taken.2.1.symm taken.2.2.symm
  links := by
    intro a x found linked
    dsimp only at found
    by_cases same : a = addr
    · rw [same, Function.update_self] at found
      cases found
      exact absurd unlinked linked
    · rw [Function.update_of_ne same] at found
      exact sound.links a x found linked

theorem Serialio.Sound.newDrvFrom (sound : s.Sound) {mem : SerialMem} {tryLink : Int}
    {drv : SerialIODriver} {res : Except Int Nat}
    (done : s.serialioNewDrvFrom mem tryLink drv = .ok (res, s')) : s'.Sound := by
  unfold serialioNewDrvFrom at done
  split at done
  · cases done
    exact sound
  · rcases Exec.bind_ok.mp done with ⟨sameMaj, majors, step⟩
    rcases Exec.bind_ok.mp step with ⟨sameName, names, step⟩
    split at step
    · cases step
      exact sound
    · rename_i fresh
      rcases not_or.mp fresh with ⟨noMaj, noName⟩
      rcases Exec.bind_ok.mp step with ⟨⟨newDrv, s₁⟩, created, step⟩
      rcases Exec.bind_ok.mp created with ⟨⟨addr, drivers, serialDrvs⟩, allocated, created⟩
      cases created
      dsimp only at step
      rcases serialioNew_ok allocated with
        ⟨rfl, -, rfl, rfl⟩ | ⟨rfl, some_block, -, unused, rfl, rfl⟩
      · cases step
        exact sound
      · rw [if_neg some_block] at step
        rcases Exec.bind_ok.mp step with ⟨drivers, stored, step⟩
        rcases Blocks.store_ok.mp stored with ⟨-, rfl⟩
        rcases Exec.bind_ok.mp step with ⟨⟨st, s₂⟩, tried, step⟩
        cases step
        rw [Function.update_idem] at tried
        apply Serialio.Sound.tryDrv _ tried
        apply sound.addDrv unused
        · intro a x here some_maj
          unfold serialioSameMaj at majors
          rw [if_neg some_maj, not_ne_iff.mp noMaj] at majors
          have differs := firstEntry_none majors a ((sound.drvs.live a).mpr ⟨x, here⟩) x here
          simpa using differs
        · intro a x here named
          rcases Option.ne_none_iff_exists'.mp named with ⟨name, same⟩
          rw [same, not_ne_iff.mp noName] at names
          have differs := firstEntry_none names a ((sound.drvs.live a).mpr ⟨x, here⟩) x here
          rw [same]
          simpa using differs

theorem Serialio.Sound.newDev (sound : s.Sound) {mem : SerialMem} {tryLink : Int}
    {name : Option (List Byte)} {maj min : BitVec 32} {data : Nat} {res : Except Int Nat}
    (done : s.serialioNewDev mem tryLink name maj min data = .ok (res, s')) : s'.Sound := by
  unfold serialioNewDev at done
  split at done
  · cases done
    exact sound
  · rcases Exec.bind_ok.mp done with ⟨nameDup, names, step⟩
    rcases Exec.bind_ok.mp step with ⟨majDup, majors, rest⟩
    split at rest
    · cases rest
      exact sound
    · rename_i fresh
      rcases not_or.mp fresh with ⟨noName, noMaj⟩
      rw [Bool.not_eq_true] at noName noMaj
      subst noName noMaj
      rcases Exec.bind_ok.mp rest with ⟨⟨dev, s₁⟩, created, step⟩
      rcases Exec.bind_ok.mp created with ⟨⟨addr, devices, serialDevs⟩, allocated, created⟩
      cases created
      dsimp only at step
      rcases serialioNew_ok allocated with
        ⟨rfl, -, rfl, rfl⟩ | ⟨rfl, some_block, -, unused, rfl, rfl⟩
      · cases step
        exact sound
      · rw [if_neg some_block] at step
        rcases Exec.bind_ok.mp step with ⟨devices, stored, step⟩
        rcases Blocks.store_ok.mp stored with ⟨-, rfl⟩
        rcases Exec.bind_ok.mp step with ⟨⟨st, s₂⟩, tried, step⟩
        cases step
        rw [Function.update_idem] at tried
        apply Serialio.Sound.tryDev _ tried
        apply sound.addDev unused rfl
        · intro a x here named sameName
          rcases Option.ne_none_iff_exists'.mp named with ⟨text, same⟩
          dsimp only at same sameName
          subst same
          have differs := firstEntry_missed names a ((sound.devs.live a).mpr ⟨x, here⟩) x here
          simpa [sameName] using differs
        · intro a x here some_maj sameMaj
          unfold serialioMajDup at majors
          rw [if_neg some_maj] at majors
          have differs := firstEntry_missed majors a ((sound.devs.live a).mpr ⟨x, here⟩) x here
          simpa [sameMaj] using differs

end Registration

section Deletion

variable {s s' : Serialio} {unlink : Nat → Int} {addr : Nat} {st : Int}

theorem serialioUnlinkDev_ok (done : s.serialioUnlinkDev unlink addr = .ok (st, s')) :
    st = unlink addr ∧ ∃ dev, s.devices addr = some dev ∧ s' =
      if unlink addr ≠ 0 then s
      else { s with devices := Function.update s.devices addr (some { dev with driver := 0 }) } := by
  rcases Exec.bind_ok.mp done with ⟨dev, loaded, step⟩
  rcases assert_bind_ok.mp step with ⟨-, step⟩
  rcases Exec.bind_ok.mp step with ⟨drv, -, step⟩
  by_cases refused : unlink addr ≠ 0
  · rw [if_pos refused] at step
    cases step
    exact ⟨rfl, dev, Blocks.load_ok.mp loaded, (if_pos refused).symm⟩
  · rw [if_neg refused] at step
    rcases Exec.bind_ok.mp step with ⟨devices, stored, step⟩
    rcases Blocks.store_ok.mp stored with ⟨-, rfl⟩
    cases step
    exact ⟨(not_ne_iff.mp refused).symm, dev, Blocks.load_ok.mp loaded, (if_neg refused).symm⟩

theorem Serialio.Sound.unlinkDev (sound : s.Sound)
    (done : s.serialioUnlinkDev unlink addr = .ok (st, s')) : s'.Sound := by
  rcases serialioUnlinkDev_ok done with ⟨-, dev, here, rfl⟩
  split
  · exact sound
  · exact sound.relink here fun linked => absurd rfl linked

theorem serialioUnlinkDev_frame (done : s.serialioUnlinkDev unlink addr = .ok (st, s')) :
    s'.drivers = s.drivers ∧ s'.serialDrvs = s.serialDrvs ∧
      ∀ a, a ≠ addr → s'.devices a = s.devices a := by
  rcases serialioUnlinkDev_ok done with ⟨-, dev, -, rfl⟩
  split
  · exact ⟨rfl, rfl, fun _ _ => rfl⟩
  · exact ⟨rfl, rfl, fun a differs => Function.update_of_ne differs _ _⟩

/-- The devices after the loop over those of a driver. Where it came to its end, the driver has only
    the devices left that were not unlinked, and none of them said so. -/
theorem serialioDeleteDrvLoop_ok {drv : Nat} {devs : List Nat} (nodup : devs.Nodup)
    (sound : s.Sound) (done : serialioDeleteDrvLoop unlink drv devs s = .ok (st, s')) :
    s'.Sound ∧ s'.drivers = s.drivers ∧ s'.serialDrvs = s.serialDrvs ∧
      (∀ a, a ∉ devs → s'.devices a = s.devices a) ∧
      (0 ≤ st → ∀ a ∈ devs, ∀ dev, s.devices a = some dev → dev.driver = drv → 0 ≤ unlink a) ∧
      (0 ≤ st → ∀ a ∈ devs, ∀ dev, s'.devices a = some dev → dev.driver = drv → drv ≠ 0 →
        (∃ old, s.devices a = some old ∧ old.driver = drv) ∧ unlink a ≠ 0) := by
  induction devs generalizing s with
  | nil =>
    cases done
    exact ⟨sound, rfl, rfl, fun _ _ => rfl, by simp, by simp⟩
  | cons first rest ih =>
    rcases List.nodup_cons.mp nodup with ⟨apart, nodup⟩
    rcases Exec.bind_ok.mp done with ⟨device, loaded, step⟩
    have here := Blocks.load_ok.mp loaded
    by_cases other : device.driver ≠ drv
    · rw [if_pos other] at step
      rcases ih nodup sound step with ⟨sound', drivers, drvs, frame, refused, left⟩
      refine ⟨sound', drivers, drvs, ?_, ?_, ?_⟩
      · intro a outside
        exact frame a fun member => outside (List.mem_cons_of_mem _ member)
      · intro through a member dev found linked
        rcases List.mem_cons.mp member with rfl | later
        · rw [here] at found
          cases found
          exact absurd linked other
        · exact refused through a later dev found linked
      · intro through a member dev found linked
        rcases List.mem_cons.mp member with rfl | later
        · rw [frame a apart, here] at found
          cases found
          exact absurd linked other
        · exact left through a later dev found linked
    · rw [if_neg other] at step
      rcases Exec.bind_ok.mp step with ⟨⟨answer, s₁⟩, unlinked, step⟩
      have sound₁ := sound.unlinkDev unlinked
      rcases serialioUnlinkDev_frame unlinked with ⟨drivers₁, drvs₁, elsewhere⟩
      rcases serialioUnlinkDev_ok unlinked with ⟨rfl, dev₁, here₁, same⟩
      dsimp only at step
      by_cases negative : unlink first < 0
      · rw [if_pos negative] at step
        cases step
        refine ⟨sound₁, drivers₁, drvs₁, ?_, ?_, ?_⟩
        · intro a outside
          exact elsewhere a fun same => outside (by rw [same]; exact List.mem_cons_self)
        · intro through
          exact absurd through (by decide)
        · intro through
          exact absurd through (by decide)
      · rw [if_neg negative] at step
        rcases ih nodup sound₁ step with ⟨sound', drivers, drvs, frame, refused, left⟩
        refine ⟨sound', drivers.trans drivers₁, drvs.trans drvs₁, ?_, ?_, ?_⟩
        · intro a outside
          rcases List.ne_and_not_mem_of_not_mem_cons outside with ⟨differs, later⟩
          rw [frame a later, elsewhere a differs]
        · intro through a member dev found linked
          rcases List.mem_cons.mp member with rfl | later
          · exact not_lt.mp negative
          · rw [← elsewhere a fun same => apart (by rw [← same]; exact later)] at found
            exact refused through a later dev found linked
        · intro through a member dev found linked some_drv
          rcases List.mem_cons.mp member with rfl | later
          · refine ⟨⟨device, here, not_ne_iff.mp other⟩, ?_⟩
            intro zero
            rw [frame a apart, same, if_neg (not_ne_iff.mpr zero)] at found
            dsimp only at found
            rw [Function.update_self] at found
            cases found
            exact some_drv linked.symm
          · have differs : a ≠ first := fun same => apart (by rw [← same]; exact later)
            rcases left through a later dev found linked some_drv with ⟨⟨old, before, was⟩, answer⟩
            rw [elsewhere a differs] at before
            exact ⟨⟨old, before, was⟩, answer⟩

theorem serialioRemoveDrv_ok {drv : Nat} {drvs : List Nat} (listed : drv ∈ s.serialDrvs)
    (done : s.serialioRemoveDrv drv = .ok drvs) : drvs = s.serialDrvs.erase drv := by
  unfold serialioRemoveDrv at done
  rw [if_pos listed] at done
  cases done
  rfl

theorem Serialio.Sound.deleteDrv (sound : s.Sound) {drv : Nat}
    (answers : (SerialCall.deleteDrv unlink drv).UnlinksOrRefuses s)
    (done : s.serialioDeleteDrv unlink drv = .ok (st, s')) : s'.Sound := by
  rcases Exec.bind_ok.mp done with ⟨⟨st₁, s₁⟩, loop, step⟩
  rcases serialioDeleteDrvLoop_ok sound.devs.nodup sound loop with ⟨sound₁, -, -, frame, refused, left⟩
  dsimp only at step
  by_cases busy : st₁ < 0
  · rw [if_pos busy] at step
    cases step
    exact sound₁
  · rw [if_neg busy] at step
    have through : 0 ≤ st₁ := not_lt.mp busy
    rcases Exec.bind_ok.mp step with ⟨drvs, removed, step⟩
    rcases Exec.bind_ok.mp step with ⟨drivers, freed, step⟩
    rcases Blocks.free_ok.mp freed with ⟨live, rfl⟩
    cases step
    rw [serialioRemoveDrv_ok ((sound₁.drvs.live drv).mpr live) removed]
    -- The driver that goes has no device left.
    have unlinked : ∀ a dev, s₁.devices a = some dev → dev.driver ≠ 0 → dev.driver ≠ drv := by
      intro a dev found some_driver linked
      have listed : a ∈ s.serialDevs := by
        by_contra outside
        rw [frame a outside] at found
        exact outside ((sound.devs.live a).mpr ⟨dev, found⟩)
      obtain ⟨⟨old, before, was⟩, answer⟩ :=
        left through a listed dev found linked (by rw [← linked]; exact some_driver)
      rcases answers with ⟨b, other, here, its, negative⟩ | zero
      · have positive := refused through b ((sound.devs.live b).mpr ⟨other, here⟩) other here its
        exact absurd negative (not_lt.mpr positive)
      · exact answer (zero a old before was)
    exact {
      drvs := sound₁.drvs.erase drv
      devs := sound₁.devs
      majors := sound₁.majors.erase drv
      names := sound₁.names.erase drv
      devNames := sound₁.devNames
      devMajors := sound₁.devMajors
      links := by
        intro a dev found linked
        rcases sound₁.links a dev found linked with ⟨x, registered, hit⟩
        have stays := Function.update_of_ne (unlinked a dev found linked) none s₁.drivers
        exact ⟨x, stays.trans registered, hit⟩ }

theorem Serialio.Sound.freeDev (sound : s.Sound)
    (done : s.serialioFreeDev addr = .ok (st, s')) : s'.Sound := by
  unfold serialioFreeDev at done
  split at done
  · cases done
    exact sound
  · rcases Exec.bind_ok.mp done with ⟨devices, freed, step⟩
    rcases Blocks.free_ok.mp freed with ⟨-, rfl⟩
    cases step
    exact {
      drvs := sound.drvs
      devs := sound.devs.erase addr
      majors := sound.majors
      names := sound.names
      devNames := sound.devNames.erase addr
      devMajors := sound.devMajors.erase addr
      links := by
        intro a dev found linked
        dsimp only at found
        by_cases gone : a = addr
        · rw [gone, Function.update_self] at found
          cases found
        · rw [Function.update_of_ne gone] at found
          exact sound.links a dev found linked }

theorem Serialio.Sound.deleteDevByName (sound : s.Sound) {name : List Byte}
    (done : s.serialioDeleteDevByName unlink name = .ok (st, s')) : s'.Sound := by
  rcases Exec.bind_ok.mp done with ⟨found, -, step⟩
  cases found with
  | none =>
    cases step
    exact sound
  | some dev =>
    rcases Exec.bind_ok.mp step with ⟨device, -, step⟩
    split at step
    · exact sound.freeDev step
    · rcases Exec.bind_ok.mp step with ⟨⟨answer, s₁⟩, unlinked, step⟩
      have sound₁ := sound.unlinkDev unlinked
      dsimp only at step
      split at step
      · cases step
        exact sound₁
      · exact sound₁.freeDev step

end Deletion

section Calls

variable {s s' : Serialio}

theorem noSerials_sound : noSerials.Sound where
  drvs := ⟨List.nodup_nil, by simp [noSerials]⟩
  devs := ⟨List.nodup_nil, by simp [noSerials]⟩
  majors := nofun
  names := nofun
  devNames := nofun
  devMajors := nofun
  links := nofun

theorem map_snd_ok {α β : Type} {x : Exec (α × β)} {b : β} (done : x.map Prod.snd = .ok b) :
    ∃ a, x = .ok (a, b) := by
  cases x with
  | error stop => cases done
  | ok pair =>
    cases done
    exact ⟨pair.1, rfl⟩

theorem Serialio.Sound.perform (sound : s.Sound) {call : SerialCall}
    (answers : call.UnlinksOrRefuses s) (done : call.perform s = .ok s') : s'.Sound := by
  cases call with
  | newDrvFrom mem tryLink drv =>
    rcases map_snd_ok done with ⟨res, call⟩
    exact sound.newDrvFrom call
  | deleteDrv unlink drv =>
    rcases map_snd_ok done with ⟨st, call⟩
    exact sound.deleteDrv answers call
  | newDev mem tryLink name maj min data =>
    rcases map_snd_ok done with ⟨res, call⟩
    exact sound.newDev call
  | deleteDevByName unlink name =>
    rcases map_snd_ok done with ⟨st, call⟩
    exact sound.deleteDevByName call

/-- In every run in which a driver only goes when its devices are unlinked, no device is left with
    a driver that is gone, and no ids are taken twice. -/
theorem serialio_sound {calls : List SerialCall}
    (run : Run (fun s call s' => call.perform s = .ok s' ∧ call.UnlinksOrRefuses s) noSerials
      calls s) : s.Sound :=
  run.invariant Serialio.Sound (fun _ _ _ step sound => sound.perform step.2 step.1)
    noSerials_sound

def kbdName : List Byte := [0x6b, 0x62, 0x64]

/-- A driver and its device are registered and linked, and the driver goes again. -/
def kbdCalls (unlink : Int) : List SerialCall :=
  [.newDrvFrom ⟨0x10, true⟩ 0 ⟨some kbdName, 0⟩, .newDev ⟨0x20, true⟩ 0 (some kbdName) 0 1 0,
    .deleteDrv (fun _ => unlink) 0x10]

theorem kbdCalls_run (unlink : Int) {s : Serialio} (ran : (kbdCalls unlink).foldlM
      (fun s call => (SerialCall.perform s call).toOption) noSerials = some s) :
    Run (fun s call s' => call.perform s = .ok s') noSerials (kbdCalls unlink) s := by
  apply (Run.of_foldlM _ ran).mono
  intro s call s' step
  cases done : call.perform s with
  | error stop =>
    rw [done] at step
    cases step
  | ok t =>
    rw [done] at step
    cases step
    rfl

theorem serialio_sound_kbd : ∃ s, Run (fun s call s' => call.perform s = .ok s' ∧
    call.UnlinksOrRefuses s) noSerials (kbdCalls 0) s ∧ s.Sound := by
  have done : (((kbdCalls 0).foldlM (fun s call => (SerialCall.perform s call).toOption)
      noSerials).map fun s => s.serialDevs) = some [0x20] := by decide
  rcases Option.map_eq_some_iff.mp done with ⟨s, ran, -⟩
  have zero : ∀ call ∈ kbdCalls 0, ∀ s, call.UnlinksOrRefuses s := by
    simp [kbdCalls, SerialCall.UnlinksOrRefuses]
  have run : Run (fun s call s' => call.perform s = .ok s' ∧ call.UnlinksOrRefuses s) noSerials
      (kbdCalls 0) s :=
    ((kbdCalls_run 0 ran).labelled zero).mono fun s _ _ step => ⟨step.1, step.2 s⟩
  exact ⟨s, run, serialio_sound run⟩

/-- An unlink callback answers a positive number, and its driver is freed all the same. -/
theorem serialio_dangling : ∃ s, Run (fun s call s' => call.perform s = .ok s') noSerials
    (kbdCalls 1) s ∧ ¬s.Sound := by
  have done : (((kbdCalls 1).foldlM (fun s call => (SerialCall.perform s call).toOption)
      noSerials).map fun s => (s.devices 0x20, s.drivers 0x10)) =
      some (some ⟨some kbdName, 0, 1, 0x10, 0⟩, none) := by decide
  rcases Option.map_eq_some_iff.mp done with ⟨s, ran, state⟩
  rcases Prod.mk.inj state with ⟨device, driver⟩
  refine ⟨s, kbdCalls_run 1 ran, fun sound => ?_⟩
  obtain ⟨drv, registered, -⟩ := sound.links _ _ device (by decide)
  rw [driver] at registered
  cases registered

end Calls

end Dxgmx
