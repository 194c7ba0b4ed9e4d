import GbbDongle.Model.Busscan
import Mathlib.Data.List.TakeWhile

/-!
# What a bus scan reports

Nothing a device can send makes the tool index out of range: both parsers test
the length before each part of a frame they look at. So `probe` always comes to
an answer, and `probe_eq` says to which: the address is there when one of the
exchanges it made got something from the bus, except that a second attempt which
times out wipes out a first answer that was no use. The loop over the addresses
keeps what `probe` says, the whole of it or its first stretch.
-/

namespace Gbb.Busscan

variable {frame : Bytes} {probed addr : UInt8} {ask : Nat → Exchange} {bus : Bus} {x : Exchange}

/-! ## Parsing a frame -/

theorem getElem?_of_lt (frame : Bytes) (i : Nat) (h : i < frame.length) : ∃ b, frame[i]? = some b :=
  ⟨frame[i], List.getElem?_eq_getElem h⟩

theorem crcMatches_isSome (frame : Bytes) (h : 2 ≤ frame.length) :
    ∃ ok, crcMatches frame = some ok := by
  obtain ⟨lo, hlo⟩ := getElem?_of_lt frame (frame.length - 2) (by omega)
  obtain ⟨hi, hhi⟩ := getElem?_of_lt frame (frame.length - 1) (by omega)
  rw [crcMatches, if_neg (by omega), hlo, hhi]
  exact ⟨_, rfl⟩

theorem registerAt_isSome {i : Nat} (h : 4 + 2 * i < frame.length) :
    ∃ r, registerAt frame i = some r := by
  obtain ⟨hi, hhi⟩ := getElem?_of_lt frame (3 + 2 * i) (by omega)
  obtain ⟨lo, hlo⟩ := getElem?_of_lt frame (4 + 2 * i) h
  rw [registerAt, hhi, hlo]
  exact ⟨_, rfl⟩

/-- Registers that all lie inside the frame are all read. -/
theorem mapM_registerAt {indices : List Nat} (h : ∀ i ∈ indices, 4 + 2 * i < frame.length) :
    ∃ regs, indices.mapM (registerAt frame) = some regs ∧ regs.length = indices.length := by
  induction indices with
  | nil => exact ⟨[], rfl, rfl⟩
  | cons i indices ih =>
      obtain ⟨r, hr⟩ := registerAt_isSome (h i (by simp))
      obtain ⟨regs, hregs, hlen⟩ := ih fun j hj => h j (by simp [hj])
      refine ⟨r :: regs, ?_, by rw [List.length_cons, hlen, List.length_cons]⟩
      rw [List.mapM_cons, hr, hregs]
      rfl

theorem readIdent_isSome (frame : Bytes) (id : Ident) (h : 3 + 16 + 2 ≤ frame.length) :
    ∃ id', readIdent id frame = some id' ∧ id'.present = id.present := by
  have hin : ∀ i ∈ List.range 8, 4 + 2 * i < frame.length := by
    intro i hi
    have := List.mem_range.mp hi
    omega
  obtain ⟨regs, hregs, hlen⟩ := mapM_registerAt hin
  rw [List.length_range] at hlen
  simp only [readIdent, hregs, Option.bind_eq_bind, Option.bind_some,
    List.getElem?_eq_getElem (show 0 < regs.length by omega),
    List.getElem?_eq_getElem (show 1 < regs.length by omega),
    List.getElem?_eq_getElem (show 2 < regs.length by omega)]
  exact ⟨_, rfl, rfl⟩

/-- What a parser comes to that stays within its frame: an error, or a device
that is there. -/
inductive Returns : Option (Except Bytes Ident) → Prop
  | error (note : Bytes) : Returns (some (.error note))
  | ok (id : Ident) : id.present = true → Returns (some (.ok id))

theorem parseIdent_returns (frame : Bytes) (probed : UInt8) :
    Returns (parseIdent frame probed) := by
  rw [parseIdent]
  by_cases hshort : frame.length < 5
  · rw [if_pos hshort]
    exact .error _
  · obtain ⟨matching, hmatch⟩ := crcMatches_isSome frame (by omega)
    obtain ⟨b₀, h₀⟩ := getElem?_of_lt frame 0 (by omega)
    obtain ⟨b₁, h₁⟩ := getElem?_of_lt frame 1 (by omega)
    obtain ⟨b₂, h₂⟩ := getElem?_of_lt frame 2 (by omega)
    simp only [if_neg hshort, hmatch, h₀, h₁, h₂, Option.bind_eq_bind, Option.bind_some]
    split
    · exact .error _
    · split
      · exact .ok _ rfl
      · split
        · exact .error _
        · split
          · exact .error _
          · next hlong =>
              obtain ⟨id, hid, hpresent⟩ := readIdent_isSome frame
                { present := true
                  note := if b₀ ≠ probed then text "reply from address " ++ decimal b₀.toNat
                    else [] } (by omega)
              rw [hid]
              exact .ok id hpresent

theorem parseSOC_isSome (frame : Bytes) : ∃ r, parseSOC frame = some r := by
  rw [parseSOC]
  by_cases hshort : frame.length < 5
  · rw [if_pos hshort]
    exact ⟨_, rfl⟩
  · obtain ⟨matching, hmatch⟩ := crcMatches_isSome frame (by omega)
    obtain ⟨b₁, h₁⟩ := getElem?_of_lt frame 1 (by omega)
    obtain ⟨b₂, h₂⟩ := getElem?_of_lt frame 2 (by omega)
    obtain ⟨b₃, h₃⟩ := getElem?_of_lt frame 3 (by omega)
    obtain ⟨b₄, h₄⟩ := getElem?_of_lt frame 4 (by omega)
    simp only [if_neg hshort, hmatch, h₁, h₂, h₃, h₄, Option.bind_eq_bind, Option.bind_some]
    split
    · exact ⟨_, rfl⟩
    · split
      · exact ⟨_, rfl⟩
      · split <;> exact ⟨_, rfl⟩

theorem probeSOC_isSome (x : Exchange) : ∃ soc, probeSOC x = some soc := by
  cases x with
  | frame frame =>
      obtain ⟨r, hr⟩ := parseSOC_isSome frame
      simp only [probeSOC, hr, Option.bind_eq_bind, Option.bind_some]
      cases r <;> exact ⟨_, rfl⟩
  | dongleError msg => exact ⟨_, rfl⟩
  | failed err ctxErr => exact ⟨_, rfl⟩

theorem socOf_isSome (bus : Bus) (readSOC : Bool) (addr : UInt8) (id : Ident) :
    ∃ soc, socOf bus readSOC addr id = some soc := by
  rw [socOf]
  split
  · exact probeSOC_isSome _
  · exact ⟨_, rfl⟩

/-! ## Probing an address -/

/-- Something on the bus answered. -/
def Exchange.answers : Exchange → Bool
  | .frame _ => true
  | .dongleError msg => msg != responseTimeout
  | .failed _ _ => false

/-- Neither the tool nor its context failed. -/
def Exchange.onBus : Exchange → Bool
  | .failed _ _ => false
  | _ => true

/-- Something answered, but nothing of use. -/
def Exchange.garbled (addr : UInt8) : Exchange → Bool
  | .frame frame =>
      match parseIdent frame addr with
      | some (.error _) => true
      | _ => false
  | .dongleError msg => msg != responseTimeout
  | .failed _ _ => false

/-- What one turn of the loop makes of an exchange on the bus. -/
inductive TurnCase (addr : UInt8) (attempt : Nat) (note : Bytes) (x : Exchange) : Option Turn → Prop
  | found (id : Ident) : id.present = true → x.answers = true → x.garbled addr = false →
      TurnCase addr attempt note x (some (.done (.ok id)))
  | garbled (note' : Bytes) : x.answers = true → x.garbled addr = true →
      TurnCase addr attempt note x (some (.again note'))
  | silent : x.answers = false → x.garbled addr = false →
      TurnCase addr attempt note x
        (if attempt = 1 then some (.again note) else some (.done (.ok { present := false })))

theorem probeTurn_case (addr : UInt8) (attempt : Nat) (note : Bytes) (hx : x.onBus = true) :
    TurnCase addr attempt note x (probeTurn addr attempt note x) := by
  cases x with
  | failed err ctxErr => cases hx
  | dongleError msg =>
      rw [probeTurn]
      by_cases hmsg : msg = responseTimeout
      · have hsilent : (msg != responseTimeout) = false := by simpa using hmsg
        rw [if_pos hmsg]
        exact .silent hsilent hsilent
      · have hanswer : (msg != responseTimeout) = true := by simpa using hmsg
        rw [if_neg hmsg]
        exact .garbled msg hanswer hanswer
  | frame frame =>
      have hreturns := parseIdent_returns frame addr
      simp only [probeTurn]
      cases hparse : parseIdent frame addr with
      | none =>
          rw [hparse] at hreturns
          cases hreturns
      | some r =>
          rw [hparse] at hreturns
          cases hreturns with
          | error note' =>
              refine .garbled note' rfl ?_
              rw [Exchange.garbled, hparse]
          | ok id hpresent =>
              refine .found id hpresent rfl ?_
              rw [Exchange.garbled, hparse]

/-- What the second attempt makes of the probe, the first being in hand. -/
theorem probeLoop_second (addr : UInt8) (note : Bytes) (hx : (ask 2).onBus = true) :
    ∃ id, probeLoop ask addr [2] note = some ([ask 2], .ok id) ∧
      id.present = (ask 2).answers := by
  have hturn := probeTurn_case addr 2 note hx
  simp only [probeLoop]
  generalize probeTurn addr 2 note (ask 2) = turn at hturn ⊢
  cases hturn with
  | found id hpresent hans hgar => exact ⟨id, rfl, hpresent.trans hans.symm⟩
  | garbled note' hans hgar => exact ⟨_, rfl, hans.symm⟩
  | silent hans hgar => exact ⟨_, rfl, hans.symm⟩

/-- The exchanges of a probe, and its verdict: there, if one of them got an
answer, unless the first got one of no use and the second none. -/
theorem probe_eq (addr : UInt8) (h₁ : (ask 1).onBus = true) (h₂ : (ask 2).onBus = true) :
    ∃ tried id, probe ask addr = some (tried, .ok id) ∧
      tried.any Exchange.answers = ((ask 1).answers || (ask 2).answers) ∧
      id.present = (tried.any Exchange.answers && !((ask 1).garbled addr && !(ask 2).answers)) := by
  have hturn := probeTurn_case addr 1 [] h₁
  rw [probe, probeLoop]
  generalize probeTurn addr 1 [] (ask 1) = turn at hturn ⊢
  cases hturn with
  | found id hpresent hans hgar =>
      refine ⟨[ask 1], id, rfl, ?_, ?_⟩
      · simp [hans]
      · simp [hans, hgar, hpresent]
  | garbled note' hans hgar =>
      obtain ⟨id, hloop, hpresent⟩ := probeLoop_second addr note' h₂
      refine ⟨[ask 1, ask 2], id, ?_, ?_, ?_⟩
      · simp only [Option.bind_eq_bind, Option.bind_some, hloop]
        rfl
      · simp [hans]
      · simp [hans, hgar, hpresent]
  | silent hans hgar =>
      obtain ⟨id, hloop, hpresent⟩ := probeLoop_second addr [] h₂
      refine ⟨[ask 1, ask 2], id, ?_, ?_, ?_⟩
      · rw [if_pos rfl]
        simp only [Option.bind_eq_bind, Option.bind_some, hloop]
        rfl
      · simp [hans]
      · simp [hans, hgar, hpresent]

/-! ## The scan -/

/-- One of the exchanges that the probe of an address makes gets an answer. -/
def answered (bus : Bus) (addr : UInt8) : Bool :=
  match probe (bus.probe addr) addr with
  | some (tried, _) => tried.any Exchange.answers
  | none => false

/-- The first answer is of no use and the second attempt times out. -/
def dropped (bus : Bus) (addr : UInt8) : Bool :=
  (bus.probe addr 1).garbled addr && !(bus.probe addr 2).answers

/-- The addresses the scan has to get to: all, or those before the first that
is silent both times. -/
def within (bus : Bus) (full : Bool) : List UInt8 :=
  if full then addresses
  else addresses.takeWhile fun a => (bus.probe a 1).answers || (bus.probe a 2).answers

/-- No attempt to probe an address fails on the side of the tool. -/
def OnBus (bus : Bus) : Prop :=
  ∀ addr ∈ addresses, (bus.probe addr 1).onBus = true ∧ (bus.probe addr 2).onBus = true

instance : Decidable (OnBus bus) :=
  inferInstanceAs (Decidable (∀ addr ∈ addresses,
    (bus.probe addr 1).onBus = true ∧ (bus.probe addr 2).onBus = true))

/-- The addresses a scan is asked for: all that answer, or those before the
first that does not. -/
def answering (bus : Bus) (full : Bool) : List UInt8 :=
  if full then addresses.filter (answered bus) else addresses.takeWhile (answered bus)

theorem answered_eq (h₁ : (bus.probe addr 1).onBus = true)
    (h₂ : (bus.probe addr 2).onBus = true) :
    answered bus addr = ((bus.probe addr 1).answers || (bus.probe addr 2).answers) := by
  obtain ⟨tried, id, hprobe, hany, -⟩ := probe_eq addr h₁ h₂
  rw [answered, hprobe, ← hany]

theorem probe_reported (h₁ : (bus.probe addr 1).onBus = true)
    (h₂ : (bus.probe addr 2).onBus = true) :
    ∃ tried id, probe (bus.probe addr) addr = some (tried, .ok id) ∧
      id.present = (answered bus addr && !dropped bus addr) := by
  obtain ⟨tried, id, hprobe, hany, hpresent⟩ := probe_eq addr h₁ h₂
  refine ⟨tried, id, hprobe, ?_⟩
  rw [answered, hprobe, hpresent]
  rfl

/-- The loop adds to its results the addresses that are reported, up to the
first that is not where the scan is not full. -/
theorem scanLoop_eq (full readSOC : Bool) {rest : List UInt8}
    (hbus : ∀ addr ∈ rest, (bus.probe addr 1).onBus = true ∧ (bus.probe addr 2).onBus = true)
    (results : List Result) :
    ∃ found, scanLoop bus full readSOC rest results = some (results ++ found, none) ∧
      found.map Result.addr =
        if full then rest.filter (fun a => answered bus a && !dropped bus a)
        else rest.takeWhile (fun a => answered bus a && !dropped bus a) := by
  induction rest generalizing results with
  | nil => exact ⟨[], by rw [scanLoop, List.append_nil], by cases full <;> rfl⟩
  | cons addr rest ih =>
      obtain ⟨h₁, h₂⟩ := hbus addr (by simp)
      have hrest := ih fun a ha => hbus a (by simp [ha])
      obtain ⟨tried, id, hprobe, hpresent⟩ := probe_reported h₁ h₂
      simp only [scanLoop, hprobe, Option.bind_eq_bind, Option.bind_some]
      cases hid : id.present with
      | false =>
          rw [hid] at hpresent
          cases full with
          | false =>
              refine ⟨[], by rw [List.append_nil]; rfl, ?_⟩
              simp [← hpresent]
          | true =>
              obtain ⟨found, hloop, hfound⟩ := hrest results
              refine ⟨found, hloop, ?_⟩
              rw [hfound]
              simp [← hpresent]
      | true =>
          rw [hid] at hpresent
          obtain ⟨soc, hsoc⟩ := socOf_isSome bus readSOC addr id
          obtain ⟨found, hloop, hfound⟩ := hrest (results ++ [⟨addr, id, soc⟩])
          refine ⟨⟨addr, id, soc⟩ :: found, ?_, ?_⟩
          · simp only [Bool.true_eq_false, if_false, hsoc, Option.bind_some]
            rw [hloop, List.append_assoc]
            rfl
          · rw [List.map_cons, hfound]
            cases full <;> simp [← hpresent]

/-- The scan keeps to what it is for: it returns, with the answering addresses,
each once and in ascending order, and no frame makes `parseIdent` index out of
range. -/
structure Exact (bus : Bus) (full readSOC : Bool) : Prop where
  reports : ∃ results, scan bus full readSOC = some (results, none) ∧
    results.map Result.addr = answering bus full
  ascending : (answering bus full).Pairwise (· < ·)
  inRange : ∀ frame probed, ∃ r, parseIdent frame probed = some r

theorem addresses_ascending : addresses.Pairwise (· < ·) := by
  rw [addresses, List.pairwise_map]
  apply List.pairwise_lt_range.imp_of_mem
  intro i j hi hj hij
  have hi' : i < 247 := List.mem_range.mp hi
  have hj' : j < 247 := List.mem_range.mp hj
  rw [UInt8.lt_iff_toNat_lt, UInt8.toNat_ofNat_of_lt' (show i + 1 < 256 by omega),
    UInt8.toNat_ofNat_of_lt' (show j + 1 < 256 by omega)]
  omega

theorem answering_ascending (bus : Bus) (full : Bool) :
    (answering bus full).Pairwise (· < ·) := by
  cases full with
  | false => exact addresses_ascending.sublist (List.takeWhile_sublist _)
  | true => exact addresses_ascending.sublist List.filter_sublist

theorem parseIdent_isSome (frame : Bytes) (probed : UInt8) :
    ∃ r, parseIdent frame probed = some r := by
  have hreturns := parseIdent_returns frame probed
  generalize parseIdent frame probed = r at hreturns ⊢
  cases hreturns <;> exact ⟨_, rfl⟩

/-- What is left out of the list is what is dropped. -/
theorem reported_eq_answering (full : Bool) :
    (if full then addresses.filter (fun a => answered bus a && !dropped bus a)
      else addresses.takeWhile (fun a => answered bus a && !dropped bus a)) = answering bus full ↔
      ∀ a ∈ answering bus full, dropped bus a = false := by
  cases full with
  | false =>
      have htwice : (addresses.takeWhile (answered bus)).takeWhile (fun a => !dropped bus a) =
          addresses.takeWhile fun a => answered bus a && !dropped bus a := by
        rw [List.takeWhile_takeWhile]
        simp [and_comm]
      rw [if_neg Bool.false_ne_true, ← htwice]
      show _ = addresses.takeWhile (answered bus) ↔ _
      rw [List.takeWhile_eq_self_iff]
      simp [answering]
  | true =>
      have htwice : (addresses.filter (answered bus)).filter (fun a => !dropped bus a) =
          addresses.filter fun a => answered bus a && !dropped bus a := by
        rw [List.filter_filter]
        simp [Bool.and_comm]
      rw [if_pos rfl, ← htwice]
      show _ = addresses.filter (answered bus) ↔ _
      rw [List.filter_eq_self]
      simp [answering]

theorem answers_of_garbled (h : x.garbled addr = true) : x.answers = true := by
  cases x with
  | frame frame => rfl
  | dongleError msg => exact h
  | failed err ctxErr => cases h

theorem takeWhile_congr_mem {α : Type*} {p q : α → Bool} {l : List α}
    (h : ∀ a ∈ l, p a = q a) : l.takeWhile p = l.takeWhile q := by
  induction l with
  | nil => rfl
  | cons a l ih =>
      rw [List.takeWhile_cons, List.takeWhile_cons, h a (by simp),
        ih fun b hb => h b (by simp [hb])]

theorem none_dropped_iff (hbus : OnBus bus) (full : Bool) :
    (∀ a ∈ answering bus full, dropped bus a = false) ↔
      ∀ a ∈ within bus full, dropped bus a = false := by
  cases full with
  | false =>
      have heq : answering bus false = within bus false :=
        takeWhile_congr_mem fun a ha => answered_eq (hbus a ha).1 (hbus a ha).2
      rw [heq]
  | true =>
      constructor
      · intro h a ha
        cases hdrop : dropped bus a with
        | false => rfl
        | true =>
            rw [dropped, Bool.and_eq_true] at hdrop
            have hans : answered bus a = true := by
              rw [answered_eq (hbus a ha).1 (hbus a ha).2, answers_of_garbled hdrop.1, Bool.true_or]
            have hnot := h a (List.mem_filter.mpr ⟨ha, hans⟩)
            rw [dropped, hdrop.1, hdrop.2] at hnot
            cases hnot
      · intro h a ha
        exact h a (List.mem_of_mem_filter ha)

/-- A scan is exact unless an address it has to get to answers with nothing of
use first and not at all on the retry. -/
theorem scan_exact_iff {bus : Bus} (hbus : OnBus bus) (full readSOC : Bool) :
    Exact bus full readSOC ↔ ∀ a ∈ within bus full, dropped bus a = false := by
  obtain ⟨found, hscan, hfound⟩ := scanLoop_eq full readSOC hbus []
  rw [List.nil_append] at hscan
  rw [← none_dropped_iff hbus, ← reported_eq_answering, ← hfound]
  constructor
  · intro h
    obtain ⟨results, hresults, haddrs⟩ := h.reports
    rw [scan, hscan] at hresults
    cases hresults
    exact haddrs
  · intro h
    exact ⟨⟨found, hscan, h⟩, answering_ascending bus full, parseIdent_isSome⟩

/-- One device, which answers what it was asked with an exception. -/
def oneDevice : Bus where
  probe addr _ :=
    if addr = 1 then .frame [0x01, 0x83, 0x02, 0xC0, 0xF1] else .dongleError responseTimeout
  soc _ := .dongleError responseTimeout

theorem scan_exact_one_device : Exact oneDevice true false ∧ answering oneDevice true = [1] := by
  have hbus : OnBus oneDevice := by decide +kernel
  exact ⟨(scan_exact_iff hbus true false).mpr (by decide +kernel), by decide +kernel⟩

/-- A device at address 1 whose first reply is garbled and whose second is lost. -/
def flakyDevice : Bus where
  probe addr attempt :=
    if addr = 1 ∧ attempt = 1 then .dongleError (text "Invalid CRC in response")
    else .dongleError responseTimeout
  soc _ := .dongleError responseTimeout

/-- The device has answered, and the scan of the whole range does not report it. -/
theorem flaky_device_lost :
    OnBus flakyDevice ∧ answering flakyDevice true = [1] ∧
      (scan flakyDevice true false).map (fun r => r.1.map Result.addr) = some [] ∧
      ¬Exact flakyDevice true false := by
  have hasked : answering flakyDevice true = [1] := by decide +kernel
  have hreported : (scan flakyDevice true false).map (fun r => r.1.map Result.addr) = some [] := by
    decide +kernel
  refine ⟨by decide +kernel, hasked, hreported, ?_⟩
  intro h
  obtain ⟨results, hscan, haddrs⟩ := h.reports
  rw [hscan, Option.map_some, haddrs, hasked] at hreported
  cases hreported

end Gbb.Busscan
