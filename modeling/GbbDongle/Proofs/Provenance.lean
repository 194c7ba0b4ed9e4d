import GbbDongle.Proofs.Account
import GbbDongle.Proofs.Cache

/-!
# Every frame comes from the cloud

The device makes up no traffic of its own. Lines are kept in three places (the
pending slot, the store, the flash key), and what is in any of them is the array
of one message, whole and as it was parsed, however often the device has been
restarted in between and whichever flash operations have failed. So a frame on
the bus is spelled by a line of a message that was accepted before.
-/

namespace Gbb

open History EmergencyManager EmergencyStore ModbusExecutor

variable {P : Platform} {c : Config} {m : Moment} {es : List Moment} {w : World}
  {A A' : List GbbLine → Prop} {flash : Flash}

/-! ## What flash holds -/

/-- The key holds sets that the store may have held. -/
def CopyOf (P : Platform) (A : List GbbLine → Prop) (flash : Flash) : Prop :=
  ∀ blob, flash = some blob → ∃ sets : Sets, parseEmergencySets P blob .empty = some sets ∧
    Storable sets ∧ ∀ key lines, sets.find? key = some lines → A lines

theorem CopyOf.none : CopyOf P A none := by
  intro blob h
  cases h

theorem CopyOf.erase {o : NvsOutcome} (h : CopyOf P A flash) :
    CopyOf P A (nvsEraseSets o flash) := by
  rw [nvsEraseSets]
  split
  · exact .none
  · exact h

/-- What is written of sets can be read again. -/
def ReadsBack (P : Platform) (sets : Sets) : Prop :=
  Written P sets → P.deserialize (P.serialize (setsDoc sets)) = some (setsDoc sets)

theorem CopyOf.written {sets : Sets} (hw : Written P sets) (hread : ReadsBack P sets)
    (hst : Storable sets) (hsets : ∀ key lines, sets.find? key = some lines → A lines) :
    CopyOf P A (some (buildEmergencySets P sets)) := by
  intro blob h
  obtain rfl := Option.some.inj h
  rw [hw.blob]
  exact ⟨sets, parseEmergencySets_serialize hst (hread hw), hst, hsets⟩

/-- A sync leaves the copy, erases it, or writes the sets. -/
theorem CopyOf.sync {o : NvsOutcome} {s : EmergencyStore} (h : CopyOf P A flash)
    (hread : ReadsBack P s.sets) (hst : Storable s.sets)
    (hsets : ∀ key lines, s.sets.find? key = some lines → A lines) :
    CopyOf P A (syncNvs P o s flash).2.1 := by
  have hc := syncNvs_case P o s flash
  generalize syncNvs P o s flash = r at hc ⊢
  cases hc with
  | closed | nothing | long | current | refused => exact h
  | erased => exact h.erase
  | uncommitted hon hopen hw => exact .written hw hread hst hsets
  | written hon hopen hw => exact .written hw hread hst hsets

theorem CopyOf.toggle {o : NvsOutcome} {on : Bool} {s : EmergencyStore} (h : CopyOf P A flash)
    (hread : ReadsBack P s.sets) (hst : Storable s.sets)
    (hsets : ∀ key lines, s.sets.find? key = some lines → A lines) :
    CopyOf P A (s.setPersistEnabled P o on flash).2.1 := by
  rw [setPersistEnabled]
  split
  · exact h
  · split
    · exact CopyOf.sync (s := { s with persistEnabled := true, persistedHash := 0 }) h hread hst
        hsets
    · show CopyOf P A (if o.opens then nvsEraseSets o flash else flash)
      split
      · exact h.erase
      · exact h

/-! ## All three places -/

/-- Whatever lines the device has, `A` holds of them. -/
structure Holds (P : Platform) (A : List GbbLine → Prop) (w : World) : Prop where
  kept : Keeps A w
  storable : Storable w.sets
  copy : CopyOf P A w.flash

theorem Holds.mono (h : Holds P A w) (himp : ∀ lines, A lines → A' lines) : Holds P A' w := by
  refine ⟨⟨?_, ?_⟩, h.storable, ?_⟩
  · intro header hp
    exact himp _ (h.kept.pending header hp)
  · intro key lines hfind
    exact himp _ (h.kept.sets key lines hfind)
  · intro blob hblob
    obtain ⟨sets, hparse, hst, hsets⟩ := h.copy blob hblob
    exact ⟨sets, hparse, hst, fun key lines hfind => himp _ (hsets key lines hfind)⟩

theorem Holds.step (h : Holds P A m.pre) (hm : StepCase P c m) (hb : Brings A m)
    (hread : ReadsBack P m.post.sets) : Holds P A m.post := by
  have hkept := hm.keeps h.kept hb
  cases hm.nvs with
  | op o ok op =>
      generalize hs : m.post.manager.store = s at op
      generalize hf : m.post.flash = f at op
      have hsets : m.post.sets = s.sets := congrArg EmergencyStore.sets hs
      cases op with
      | still =>
          refine ⟨hkept, ?_, ?_⟩
          · rw [hsets]
            exact h.storable
          · rw [hf]
            exact h.copy
      | synced s' hen hhash hstorable =>
          have hsame : m.post.sets = s'.sets := hsets.trans syncNvs_sets
          have hst : Storable s'.sets := hstorable h.storable
          refine ⟨hkept, ?_, ?_⟩
          · rw [hsame]
            exact hst
          · rw [hf]
            rw [hsame] at hread
            refine h.copy.sync hread hst fun key lines hfind => hkept.sets key lines ?_
            rw [hsame]
            exact hfind
  | toggled on o act store flash =>
      have hsame : m.post.sets = m.pre.sets :=
        (congrArg EmergencyStore.sets store).trans setPersistEnabled_sets
      refine ⟨hkept, ?_, ?_⟩
      · rw [hsame]
        exact h.storable
      · rw [flash]
        rw [hsame] at hread
        exact h.copy.toggle hread h.storable h.kept.sets

/-- Boot leaves the key as it was, or erases it. -/
theorem setup_flash (b : BootInput) :
    (setup P b).1.flash = b.flash ∨ (setup P b).1.flash = none := by
  show (({} : EmergencyManager).setup P b.nvsSync b.nvsLoad b.persistSwitch b.flash).2.1 = _ ∨
    (({} : EmergencyManager).setup P b.nvsSync b.nvsLoad b.persistSwitch b.flash).2.1 = _
  cases hp : b.persistSwitch with
  | none => exact .inl rfl
  | some on =>
      cases on with
      | false => exact .inl rfl
      | true =>
          rw [EmergencyManager.setup, setPersistEnabled_blank]
          have hc := loadFromNvs_case P b.nvsLoad { persistEnabled := true } b.flash
          dsimp only
          generalize loadFromNvs P b.nvsLoad { persistEnabled := true } b.flash = r at hc ⊢
          cases hc with
          | nothing => exact .inl rfl
          | restored => exact .inl rfl
          | dropped blob hflash =>
              rw [nvsEraseSets]
              split
              · exact .inr rfl
              · exact .inl rfl

/-- A boot finds nothing but what flash holds. -/
theorem Holds.boot {b : BootInput} (h : CopyOf P A b.flash) : Holds P A (setup P b).1 := by
  have hsets : Storable (setup P b).1.sets ∧
      ∀ key lines, (setup P b).1.sets.find? key = some lines → A lines := by
    rcases setup_sets P b with hnone | ⟨blob, hflash, hparse⟩
    · rw [hnone]
      refine ⟨?_, ?_⟩
      · intro e he
        cases he
      · intro key lines hfind
        cases hfind
    · obtain ⟨sets, hparse', hst, hsets⟩ := h blob hflash
      obtain rfl := Option.some.inj (hparse.symm.trans hparse')
      exact ⟨hst, hsets⟩
  refine ⟨⟨?_, hsets.2⟩, hsets.1, ?_⟩
  · intro header hp
    cases hp
  · rcases setup_flash (P := P) b with hf | hf
    · rw [hf]
      exact h
    · rw [hf]
      exact .none

/-! ## Messages -/

/-- The lines are an array of a message that was accepted. -/
def Brought (P : Platform) (es : List Moment) (lines : List GbbLine) : Prop :=
  ∃ header, Accepts P es header ∧ (lines = header.lines ∨ lines = header.linesOnNoInvSetup)

theorem Brought.mono {fs : List Moment} {lines : List GbbLine} (h : Brought P es lines) :
    Brought P (es ++ fs) lines := by
  obtain ⟨header, hacc, hlines⟩ := h
  exact ⟨header, hacc.mono, hlines⟩

theorem brings_brought (hm : Step P c m) (hw : Sound m.pre) :
    Brings (Brought P (es ++ [m])) m := by
  intro header hacc
  have haccepts : Accepts P (es ++ [m]) header := ⟨m, by simp, hm.arrived hw hacc⟩
  exact ⟨⟨header, haccepts, .inl rfl⟩, fun _ => ⟨header, haccepts, .inr rfl⟩⟩

theorem Lives.brought {b : BootInput} (hfresh : b.flash = none)
    (h : Lives P c (setup P b).1 es w) (hread : ∀ x ∈ es, ReadsBack P x.post.sets) :
    Holds P (Brought P es) w := by
  refine (Lives.cases h).history (H := fun es w => (∀ x ∈ es, ReadsBack P x.post.sets) →
    Holds P (Brought P es) w) (fun _ => .boot ?_) ?_ hread
  · rw [hfresh]
    exact .none
  · intro es m _ ih hm hread
    have hpre : Holds P (Brought P (es ++ [m])) m.pre :=
      (ih fun x hx => hread x (by simp [hx])).mono fun _ => Brought.mono
    cases hm with
    | step hm hw => exact hpre.step (step_case hm) (brings_brought hm hw) (hread m (by simp))
    | booted b' post flash =>
        rw [post]
        refine .boot ?_
        rw [flash]
        exact hpre.copy

/-- A batch is an array of one message. -/
theorem Lives.begun {b : BootInput} (hfresh : b.flash = none) {before since : List Moment}
    {s : Moment} {header : GbbHeader} (h : Lives P c (setup P b).1 (before ++ s :: since) w)
    (hread : ∀ x ∈ before ++ s :: since, ReadsBack P x.post.sets) (hs : Begins s header) :
    Brought P before header.lines := by
  have hholds : Holds P (Brought P before) s.pre :=
    Lives.brought hfresh h.at.1 fun x hx => hread x (List.mem_append_left _ hx)
  obtain ⟨-, hcase, -⟩ := (Lives.cases h).at
  rcases hs with hs | ⟨key, lines, ⟨first, hs⟩, rfl⟩
  · have haccepts := Lives.started h hs
    exact ⟨header, haccepts, .inl rfl⟩
  · cases hcase with
    | booted b' post flash silent =>
        have hkind := silent _ hs
        cases hkind
    | step hm hw =>
        cases (step_case hm).source hw hs with
        | handed t first key lines opens queued next =>
            exact hholds.kept.sets key lines (nextEntry_find? next)
        | bus hk => cases hk
        | flash hk => cases hk
        | checked _ _ _ _ _ hk => cases hk
        | link hk => cases hk

/-- From the first boot on, through any reboots and flash failures: a frame that
is written to the bus is spelled by a line of a message accepted before. -/
theorem frames_come_from_messages {b : BootInput} (hfresh : b.flash = none)
    {before after : List Moment} (h : Lives P c (setup P b).1 (before ++ m :: after) w)
    (hread : ∀ x ∈ before ++ m :: after, ReadsBack P x.post.sets) {t : Nat} {frame : Bytes}
    (hwrote : Event.wrote t frame ∈ m.evs) :
    ∃ header line, Accepts P before header ∧
      (line ∈ header.lines ∨ line ∈ header.linesOnNoInvSetup) ∧ line.carries = true ∧
      hexDecode line.modbus = some frame := by
  obtain ⟨hbefore, -, -⟩ := h.at
  obtain ⟨-, hcase, -⟩ := (Lives.cases h).at
  cases hcase with
  | booted b' post flash silent =>
      have hkind := silent _ hwrote
      cases hkind
  | step hm hw =>
      obtain ⟨hgap, hframe, -⟩ := (step_case hm).of_wrote hw hwrote
      have hbusy : m.pre.executor.state ≠ .idle := by simp [hgap]
      obtain ⟨request, hacc⟩ := Lives.account hbefore hbusy
      obtain ⟨first, s, since, errors, rfl, hbegins, -, hprogress⟩ := hacc.begun
      obtain ⟨pre, settled, rest, line, hat, -, hhex⟩ := hprogress.of_gap hgap
      have hline : line ∈ request.lines := by
        rw [hat.orig_eq]
        simp
      obtain ⟨header, haccepts, hlines⟩ := Lives.begun hfresh hbefore
        (fun x hx => hread x (List.mem_append_left _ hx)) hbegins
      refine ⟨header, line, haccepts.mono, ?_, hat.carries, hframe ▸ hhex⟩
      rcases hlines with hlines | hlines
      · exact .inl (hlines ▸ hline)
      · exact .inr (hlines ▸ hline)

/-- A set is kept, the device is restarted, and the emergency at twenty past
three finds the set in flash. -/
def restoredRun : List Moment × World :=
  let kept := performAll keptDevice {} [arrives keptDoc (clockAt 0 0)] (setup keptDevice plugged).1
  let boot := rebootMove keptDevice plugged kept.2
  let woken := performAll keptDevice {} (callAfter 5000 [] (clockAt 2 20) ++
    callAfter 5000 [] (clockAt 3 20) ++ callAfter 1 [] (clockAt 3 20)) boot.post
  (kept.1 ++ [boot] ++ woken.1, woken.2)

theorem restoredRun_lives :
    Lives keptDevice {} (setup keptDevice plugged).1 restoredRun.1 restoredRun.2 := by
  have hkept : Runs keptDevice {} (setup keptDevice plugged).1 _
      (performAll keptDevice {} [arrives keptDoc (clockAt 0 0)] (setup keptDevice plugged).1).2 :=
    performAll_runs rfl
  have hlife := Lives.reboot (hkept.mono fun _ hm => .inl hm) plugged
  exact hlife.append (Run.mono (performAll_runs rfl) fun _ hm => .inl hm)

theorem frames_come_from_messages_restored :
    ∃ header line, Accepts keptDevice (restoredRun.1.take 17) header ∧
      (line ∈ header.lines ∨ line ∈ header.linesOnNoInvSetup) ∧ line.carries = true ∧
      hexDecode line.modbus = some [0x01, 0x06, 0x00, 0x01, 0x00, 0x02, 0x59, 0xCB] := by
  have hlen : 17 < restoredRun.1.length := by decide +kernel
  have hwrote : Event.wrote 10001 [0x01, 0x06, 0x00, 0x01, 0x00, 0x02, 0x59, 0xCB] ∈
      restoredRun.1[17].evs := by decide +kernel +revert
  have hsets : ∀ x ∈ restoredRun.1, x.post.sets = keptSets := by decide +kernel
  have hread : ∀ x ∈ restoredRun.1, ReadsBack keptDevice x.post.sets := by
    intro x hx hw
    rw [hsets x hx] at hw ⊢
    exact trusted_keptSets.readBack keptSets rfl hw
  have hrun := restoredRun_lives
  rw [pick_one restoredRun.1 17 hlen] at hrun hread
  exact frames_come_from_messages rfl hrun hread hwrote

end Gbb
