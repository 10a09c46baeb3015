import MatchTrader.SettingsStores

/-! A change of settings is all or nothing just when no write fails after memory has changed, the
lane's settings read the same in the encoding of the locale, and no map of no symbols stands beside
a lane that was saved before the split. -/

namespace MatchTrader

namespace Settings

open Saved

section Changes

variable [SettingsHost] {s t : Stores} {faults : Faults}

omit [SettingsHost] in
theorem file_load {α : Type} (c : Codec α) (missing v : α) : (file c missing).load ((file c missing).dump v) = .ok v := by
  simp only [file, c.read_dump, Option.elim]

/-- Neither what is in memory nor what the files read back as is another. -/
structure Untouched (s t : Stores) : Prop where
  copyConfigs : Kept Settings.copyConfigs s.copyConfigs t.copyConfigs
  symbolMap : Kept Settings.symbolMap s.symbolMap t.symbolMap
  lane : Kept laneSettings s.lane t.lane

theorem Untouched.refl (s : Stores) : Untouched s s := ⟨.refl _ _, .refl _ _, .refl _ _⟩

/-- A call that raises leaves all as it was; once it has returned, a new process would read what this one has in memory. -/
def AllOrNothing (s : Stores) (r : Outcome) : Prop :=
  match r.2 with
  | .error _ => Untouched s r.1
  | .ok () => (start none r.1.files).map Stores.configuration = .ok r.1.configuration

/-- The settings of a lane read the same in the encoding of the locale. -/
def Legible (v : SignalSettings) : Prop := laneSettings.load (laneSettings.dump (some v)) = .ok (some v)

/-- When a change of the lane's settings is harmless: they are read back in another encoding than
they are written in, and a write that fails may have been done. -/
def LaneHarmless (fault : Option WriteStep) (v : SignalSettings) (s : Stores) : Prop :=
  match fault with
  | none => Legible v
  | some step => step = .unlink → laneSettings.load (laneSettings.dump (some v)) = .ok s.lane.value

/-- What each call needs to be all or nothing. -/
def Harmless (faults : Faults) (s : Stores) : Call → Prop
  | .upsert config =>
    faults.copyConfigs = none ∨ (25 ≤ s.copyConfigs.value.rows.length ∧ s.copyConfigs.value.get? config.id.text = none)
      ∨ s.copyConfigs.value.get? config.id.text = some config
  | .delete id => faults.copyConfigs = none ∨ s.copyConfigs.value.get? id = none
  | .setState id mode enabled =>
    faults.copyConfigs = none ∨ ∀ c, s.copyConfigs.value.get? id = some c → c.setState mode enabled = c
  | .replace symbols =>
    if faults.symbolMap = none then ¬ Unsplit s.lane.value symbols else symbols = s.symbolMap.value
  | .configure payload => ∀ v, s.checkSettings payload = .ok v →
    if v.symbols.rows = [] then LaneHarmless faults.lane v.lane s
    else if faults.symbolMap = none then
      LaneHarmless faults.lane v.lane s ∧ (faults.lane = none ∨ v.symbolMap = s.symbolMap.value)
    else v.symbolMap = s.symbolMap.value
  | .configureSymbols payload =>
    faults.symbolMap = none ∨ ∀ symbols, s.checkSymbols payload = .ok symbols → symbols = s.symbolMap.value

/-- Every file reads back as what is in memory, and nothing is left to be split. -/
structure Sound (s : Stores) : Prop where
  copyConfigs : Settled Settings.copyConfigs s.copyConfigs
  symbolMap : Settled Settings.symbolMap s.symbolMap
  lane : Settled laneSettings s.lane
  unsplit : ¬ Unsplit s.lane.value s.symbolMap.value

theorem Untouched.sound (h : Untouched s t) (hs : Sound s) : Sound t := by
  refine ⟨h.copyConfigs.settled hs.copyConfigs, h.symbolMap.settled hs.symbolMap, h.lane.settled hs.lane, ?_⟩
  rw [h.lane.value, h.symbolMap.value]
  exact hs.unsplit

omit [SettingsHost] in
theorem symbolMap_rows_ne {v : SignalSettings} (h : v.symbols.rows ≠ []) : v.symbolMap.rows ≠ [] :=
  fun hmap => h (List.map_eq_nil_iff.mp hmap)

theorem split_of_unsplit {fault : Option WriteStep} {v : SignalSettings} {store : Saved (Option Json) SymbolMap}
    (hv : v.symbols.rows ≠ []) (hm : store.value.rows = []) :
    split fault (some v) store = store.assignAndSave symbolMap fault v.symbolMap := if_pos ⟨hv, hm⟩

theorem split_of_not {fault : Option WriteStep} {lane : Option SignalSettings} {store : Saved (Option Json) SymbolMap}
    (h : ¬ Unsplit lane store.value) : split fault lane store = (store, .ok ()) := by
  cases lane with
  | none => rfl
  | some v => exact if_neg fun hv => h ⟨v, rfl, hv.1, hv.2⟩

/-- A start reads each file, and then splits the lane from its symbols. -/
theorem start_eq_ok {fault : Option WriteStep} {files : Files} (h : start fault files = .ok s) :
    Settled copyConfigs s.copyConfigs ∧ Settled laneSettings s.lane ∧ s.files.copyConfigs = files.copyConfigs
      ∧ s.files.lane = files.lane ∧ ∃ symbols, symbolMap.load files.symbolMap = .ok symbols
        ∧ split fault s.lane.value ⟨symbols, files.symbolMap⟩ = (s.symbolMap, .ok ()) := by
  unfold start at h
  cases hconfigs : copyConfigs.load files.copyConfigs with
  | error e => rw [hconfigs] at h; cases h
  | ok configs =>
    cases hsymbols : symbolMap.load files.symbolMap with
    | error e => rw [hconfigs, hsymbols] at h; cases h
    | ok symbols =>
      cases hlane : laneSettings.load files.lane with
      | error e => rw [hconfigs, hsymbols, hlane] at h; cases h
      | ok lane =>
        obtain ⟨store, written, hsplit⟩ : ∃ store written, split fault lane ⟨symbols, files.symbolMap⟩ = (store, written) :=
          ⟨_, _, rfl⟩
        rw [hconfigs, hsymbols, hlane] at h
        simp only [bind, Except.bind, hsplit] at h
        cases written with
        | error e => cases h
        | ok u =>
          cases h
          exact ⟨hconfigs, hlane, rfl, rfl, symbols, rfl, hsplit⟩

theorem start_sound {fault : Option WriteStep} {files : Files} (h : start fault files = .ok s) : Sound s := by
  obtain ⟨hconfigs, hlane, -, -, symbols, hsymbols, hsplit⟩ := start_eq_ok h
  by_cases hold : Unsplit s.lane.value symbols
  · obtain ⟨v, hv, hrows, hnone⟩ := hold
    rw [hv, split_of_unsplit hrows hnone] at hsplit
    cases fault with
    | some step =>
      have hraised : (saveFile symbolMap (some step) v.symbolMap files.symbolMap).2 = .ok () := congrArg Prod.snd hsplit
      rw [saveFile_raises] at hraised
      cases hraised
    | none =>
      have hstore : s.symbolMap = ⟨v.symbolMap, symbolMap.dump v.symbolMap⟩ := (congrArg Prod.fst hsplit).symm
      refine ⟨hconfigs, ?_, hlane, ?_⟩
      · rw [hstore]
        exact file_load _ _ _
      · rintro ⟨w, hw, -, hempty⟩
        rw [hstore] at hempty
        exact symbolMap_rows_ne hrows hempty
  · rw [split_of_not hold] at hsplit
    have hstore : s.symbolMap = ⟨symbols, files.symbolMap⟩ := (congrArg Prod.fst hsplit).symm
    refine ⟨hconfigs, ?_, hlane, ?_⟩
    · rw [hstore]
      exact hsymbols
    · rw [hstore]
      exact hold

/-- A new process reads what this one has in memory just when every file does, and nothing is left to be split. -/
theorem reload_iff (hs : Settled symbolMap s.symbolMap) :
    (start none s.files).map Stores.configuration = .ok s.configuration ↔ Sound s := by
  constructor
  · intro h
    cases hstart : start none s.files with
    | error e => rw [hstart] at h; cases h
    | ok t =>
      rw [hstart] at h
      have hsame : t.configuration = s.configuration := Except.ok.inj h
      have hconf : t.copyConfigs.value = s.copyConfigs.value := congrArg Configuration.copyConfigs hsame
      have hmap : t.symbolMap.value = s.symbolMap.value := congrArg Configuration.symbolMap hsame
      have hlane : t.lane.value = s.lane.value := congrArg Configuration.lane hsame
      obtain ⟨hreadConfigs, hreadLane, hfile, hlaneFile, -⟩ := start_eq_ok hstart
      refine ⟨?_, hs, ?_, ?_⟩
      · have hfile : t.copyConfigs.file = s.copyConfigs.file := hfile
        rw [Settled, ← hfile, ← hconf]
        exact hreadConfigs
      · have hfile : t.lane.file = s.lane.file := hlaneFile
        rw [Settled, ← hfile, ← hlane]
        exact hreadLane
      · rw [← hlane, ← hmap]
        exact (start_sound hstart).unsplit
  · intro h
    have hconfigs : copyConfigs.load s.files.copyConfigs = .ok s.copyConfigs.value := h.copyConfigs
    have hsymbols : symbolMap.load s.files.symbolMap = .ok s.symbolMap.value := hs
    have hlane : laneSettings.load s.files.lane = .ok s.lane.value := h.lane
    have hsplit : split none s.lane.value ⟨s.symbolMap.value, s.files.symbolMap⟩ = (s.symbolMap, .ok ()) :=
      split_of_not h.unsplit
    unfold start
    rw [hconfigs, hsymbols, hlane]
    simp only [bind, Except.bind, hsplit]
    rfl

theorem allOrNothing_raised {r : Outcome} {e : Exc} (h : r.2 = .error e) : AllOrNothing s r ↔ Untouched s r.1 := by
  rw [AllOrNothing, h]

theorem allOrNothing_returned {r : Outcome} (h : r.2 = .ok ()) (hs : Settled symbolMap r.1.symbolMap) :
    AllOrNothing s r ↔ Sound r.1 := by
  rw [AllOrNothing, h]
  exact reload_iff hs

theorem allOrNothing_refused (s : Stores) (e : Exc) : AllOrNothing s (s, .error e) := Untouched.refl s

theorem saveConfigs_iff (faults : Faults) (hs : Sound s) (configs : CopyConfigs) :
    AllOrNothing s (s.saveConfigs faults configs) ↔ faults.copyConfigs = none ∨ configs = s.copyConfigs.value := by
  have hload := file_load (CopyConfig.codec.keyed fun c => c.id.text) .empty configs
  cases hfault : faults.copyConfigs with
  | none =>
    have hsaved : s.saveConfigs faults configs =
        ({ s with copyConfigs := ⟨configs, Settings.copyConfigs.dump configs⟩ }, .ok ()) := by
      rw [Stores.saveConfigs, hfault]
      rfl
    rw [hsaved, allOrNothing_returned rfl hs.symbolMap]
    exact iff_of_true ⟨hload, hs.symbolMap, hs.lane, hs.unsplit⟩ (Or.inl rfl)
  | some step =>
    have hraised : (s.saveConfigs faults configs).2 = .error osError := by
      rw [Stores.saveConfigs, hfault]
      exact assignAndSave_raises Settings.copyConfigs step configs s.copyConfigs
    rw [allOrNothing_raised hraised, Stores.saveConfigs, hfault]
    have hkept := assignAndSave_kept_iff step hload hs.copyConfigs
    constructor
    · exact fun h => Or.inr (hkept.mp h.copyConfigs)
    · intro h
      exact ⟨hkept.mpr (h.resolve_left (by simp)), .refl _ _, .refl _ _⟩

theorem replace_iff (faults : Faults) (hs : Sound s) (symbols : SymbolMap) :
    AllOrNothing s (s.replace faults symbols) ↔
      if faults.symbolMap = none then ¬ Unsplit s.lane.value symbols else symbols = s.symbolMap.value := by
  have hload := file_load (Codec.dict id some (fun _ => rfl) SymbolMapping.codec) .empty symbols
  cases hfault : faults.symbolMap with
  | none =>
    have hreplaced : s.replace faults symbols = ({ s with symbolMap := ⟨symbols, symbolMap.dump symbols⟩ }, .ok ()) := by
      rw [Stores.replace, hfault]
      rfl
    have hsettled : Settled Settings.symbolMap ⟨symbols, Settings.symbolMap.dump symbols⟩ := hload
    rw [if_pos rfl, hreplaced, allOrNothing_returned rfl hsettled]
    exact ⟨fun h => h.unsplit, fun h => ⟨hs.copyConfigs, hload, hs.lane, h⟩⟩
  | some step =>
    have hraised : (s.replace faults symbols).2 = .error osError := by
      rw [Stores.replace, hfault]
      exact assignAndSave_raises Settings.symbolMap step symbols s.symbolMap
    rw [if_neg (by simp), allOrNothing_raised hraised, Stores.replace, hfault]
    have hkept := assignAndSave_kept_iff step hload hs.symbolMap
    exact ⟨fun h => hkept.mp h.symbolMap, fun h => ⟨.refl _ _, hkept.mpr h, .refl _ _⟩⟩

/-- The lane is saved where its symbols, if it came with any, have just been. -/
theorem saveSettings_iff (faults : Faults) (hs : Sound s) (v : SignalSettings) {symbols : Saved (Option Json) SymbolMap}
    (hsymbols : Settled symbolMap symbols) :
    AllOrNothing s (Stores.saveSettings faults v.lane { s with symbolMap := symbols }) ↔
      LaneHarmless faults.lane v.lane s ∧ (faults.lane = none ∨ symbols.value = s.symbolMap.value) := by
  cases hfault : faults.lane with
  | none =>
    have hsaved : Stores.saveSettings faults v.lane { s with symbolMap := symbols } =
        ({ s with symbolMap := symbols, lane := ⟨some v.lane, laneSettings.dump (some v.lane)⟩ }, .ok ()) := by
      rw [Stores.saveSettings, hfault]
      rfl
    rw [hsaved, allOrNothing_returned rfl hsymbols]
    have hsplit : ¬ Unsplit (some v.lane) symbols.value := by
      rintro ⟨w, hw, hrows, -⟩
      cases hw
      exact hrows rfl
    exact ⟨fun h => ⟨h.lane, Or.inl rfl⟩, fun h => ⟨hs.copyConfigs, hsymbols, h.1, hsplit⟩⟩
  | some step =>
    have hraised : (Stores.saveSettings faults v.lane { s with symbolMap := symbols }).2 = .error osError := by
      rw [Stores.saveSettings, hfault]
      exact congrArg Prod.snd (saveAndAssign_raised _ step _ _)
    rw [allOrNothing_raised hraised, Stores.saveSettings, hfault]
    have hkept := saveAndAssign_kept_iff (some v.lane) step hs.lane
    constructor
    · exact fun h => ⟨hkept.mp h.lane, Or.inr h.symbolMap.value⟩
    · intro h
      have hvalue : symbols.value = s.symbolMap.value := h.2.resolve_left (by simp)
      exact ⟨.refl _ _, hs.symbolMap.kept hsymbols hvalue, hkept.mpr h.1⟩

theorem upsert_iff (hs : Sound s) (config : CopyConfig) :
    AllOrNothing s (s.upsert faults config) ↔ Harmless faults s (.upsert config) := by
  simp only [Stores.upsert, Harmless]
  by_cases hfull : 25 ≤ s.copyConfigs.value.rows.length ∧ (s.copyConfigs.value.get? config.id.text).isNone
  · rw [if_pos hfull]
    refine iff_of_true (allOrNothing_refused s _) (Or.inr (Or.inl ⟨hfull.1, ?_⟩))
    exact Option.isNone_iff_eq_none.mp hfull.2
  · rw [if_neg hfull, saveConfigs_iff faults hs, Keyed.put_eq_self_iff]
    rw [Option.isNone_iff_eq_none] at hfull
    exact ⟨fun h => h.imp_right Or.inr, fun h => h.imp_right fun h => h.resolve_left hfull⟩

theorem delete_iff (hs : Sound s) (id : String) : AllOrNothing s (s.delete faults id) ↔ Harmless faults s (.delete id) := by
  simp only [Stores.delete, Harmless]
  cases hfound : s.copyConfigs.value.get? id with
  | none => exact iff_of_true (allOrNothing_refused s _) (Or.inr rfl)
  | some config =>
    have hne := Keyed.erase_ne hfound
    have hsome : some config ≠ none := Option.some_ne_none config
    exact (saveConfigs_iff faults hs _).trans ⟨fun h => Or.inl (h.resolve_right hne), fun h => Or.inl (h.resolve_right hsome)⟩

theorem setState_iff (hs : Sound s) (id : String) (mode : Option Mode) (enabled : Option Bool) :
    AllOrNothing s (s.setState faults id mode enabled) ↔ Harmless faults s (.setState id mode enabled) := by
  simp only [Stores.setState, Harmless]
  cases hfound : s.copyConfigs.value.get? id with
  | none => exact iff_of_true (allOrNothing_refused s _) (Or.inr fun _ h => by cases h)
  | some config =>
    have hid : (config.setState mode enabled).id.text = id := (Rows.lookup_mem hfound).2
    refine (saveConfigs_iff faults hs _).trans (or_congr Iff.rfl ?_)
    rw [Keyed.put_eq_self_iff, hid, hfound]
    constructor
    · intro h c hc
      rw [← Option.some.inj hc]
      exact (Option.some.inj h).symm
    · exact fun h => congrArg some (h config rfl).symm

theorem configure_iff (hs : Sound s) (payload : Json) :
    AllOrNothing s (s.configure faults payload) ↔ Harmless faults s (.configure payload) := by
  simp only [Stores.configure, Harmless]
  cases hchecked : s.checkSettings payload with
  | error e => exact iff_of_true (allOrNothing_refused s e) fun _ h => by cases h
  | ok v =>
    simp only [Except.ok.injEq, forall_eq']
    by_cases hrows : v.symbols.rows = []
    · have hempty : v.symbols.rows.isEmpty = true := by rw [hrows]; rfl
      have hsaved := saveSettings_iff faults hs v hs.symbolMap
      simp only [hempty, if_true, if_pos hrows]
      exact hsaved.trans ⟨fun h => h.1, fun h => ⟨h, Or.inr rfl⟩⟩
    · have hsome : ¬ v.symbols.rows.isEmpty = true := fun h => hrows (List.isEmpty_iff.mp h)
      simp only [hsome, if_neg hrows]
      cases hfault : faults.symbolMap with
      | none =>
        have hreplaced : s.replace faults v.symbolMap =
            ({ s with symbolMap := ⟨v.symbolMap, symbolMap.dump v.symbolMap⟩ }, .ok ()) := by
          rw [Stores.replace, hfault]
          rfl
        have hsettled : Settled symbolMap ⟨v.symbolMap, symbolMap.dump v.symbolMap⟩ := file_load _ _ _
        simp only [hreplaced, if_true]
        exact saveSettings_iff faults hs v hsettled
      | some step =>
        have hreplace := replace_iff faults hs v.symbolMap
        obtain ⟨t, r, ht⟩ : ∃ t r, s.replace faults v.symbolMap = (t, r) := ⟨_, _, rfl⟩
        have hraised : r = .error osError := by
          have hr : (s.replace faults v.symbolMap).2 = r := congrArg Prod.snd ht
          rw [Stores.replace, hfault] at hr
          exact hr.symm.trans (assignAndSave_raises Settings.symbolMap step v.symbolMap s.symbolMap)
        rw [ht, hraised, hfault] at hreplace
        simp only [ht, hraised]
        exact hreplace

theorem checkSymbols_rows_ne {payload : Json} {symbols : SymbolMap} (h : s.checkSymbols payload = .ok symbols) :
    symbols.rows ≠ [] := by
  intro hrows
  obtain ⟨read, -, h⟩ := bind_eq_ok.mp h
  obtain ⟨_, hempty, h⟩ := bind_eq_ok.mp h
  obtain ⟨_, _, h⟩ := bind_eq_ok.mp h
  have hread : read.rows.isEmpty = true := by
    rw [Except.ok.inj h, hrows]
    rfl
  rw [raiseIf, if_pos hread] at hempty
  cases hempty

theorem configureSymbols_iff (hs : Sound s) (payload : Json) :
    AllOrNothing s (s.configureSymbols faults payload) ↔ Harmless faults s (.configureSymbols payload) := by
  simp only [Stores.configureSymbols, Harmless]
  cases hchecked : s.checkSymbols payload with
  | error e => exact iff_of_true (allOrNothing_refused s e) (Or.inr fun _ h => by cases h)
  | ok symbols =>
    have hsplit : ¬ Unsplit s.lane.value symbols := fun ⟨_, _, _, hnone⟩ => checkSymbols_rows_ne hchecked hnone
    refine (replace_iff faults hs symbols).trans ?_
    by_cases hfault : faults.symbolMap = none
    · rw [if_pos hfault]
      exact iff_of_true hsplit (Or.inl hfault)
    · rw [if_neg hfault]
      simp only [Except.ok.injEq, forall_eq', hfault, false_or]

theorem Call.run_iff (faults : Faults) (hs : Sound s) (c : Call) : AllOrNothing s (c.run faults s) ↔ Harmless faults s c := by
  cases c with
  | upsert config => exact upsert_iff hs config
  | delete id => exact delete_iff hs id
  | setState id mode enabled => exact setState_iff hs id mode enabled
  | replace symbols =>
    rw [Harmless]
    exact replace_iff faults hs symbols
  | configure payload => exact configure_iff hs payload
  | configureSymbols payload => exact configureSymbols_iff hs payload

theorem replace_settled {symbols : SymbolMap} (h : (s.replace faults symbols).2 = .ok ()) :
    Settled symbolMap (s.replace faults symbols).1.symbolMap := by
  rw [Stores.replace] at h ⊢
  cases hfault : faults.symbolMap with
  | none => exact file_load _ _ _
  | some step =>
    have hraises := assignAndSave_raises Settings.symbolMap step symbols s.symbolMap
    rw [← hfault] at hraises
    exact absurd (hraises.symm.trans h) (by simp)

/-- The symbol map that a call leaves when it returns is the one in the file. -/
theorem Call.run_settled (hs : Settled symbolMap s.symbolMap) (c : Call) (h : (c.run faults s).2 = .ok ()) :
    Settled symbolMap (c.run faults s).1.symbolMap := by
  cases c with
  | upsert config =>
    simp only [run, Stores.upsert]
    split <;> exact hs
  | delete id =>
    simp only [run, Stores.delete]
    split <;> exact hs
  | setState id mode enabled =>
    simp only [run, Stores.setState]
    split <;> exact hs
  | replace symbols => exact replace_settled h
  | configure payload =>
    simp only [run, Stores.configure] at h ⊢
    cases hchecked : s.checkSettings payload with
    | error e => exact hs
    | ok v =>
      simp only [hchecked] at h ⊢
      by_cases hrows : v.symbols.rows.isEmpty
      · simp only [if_pos hrows]
        exact hs
      · simp only [if_neg hrows] at h ⊢
        have hreplaced := @replace_settled _ s faults v.symbolMap
        obtain ⟨t, r, ht⟩ : ∃ t r, s.replace faults v.symbolMap = (t, r) := ⟨_, _, rfl⟩
        rw [ht] at hreplaced
        simp only [ht] at h ⊢
        cases r with
        | error e => cases h
        | ok u => exact hreplaced rfl
  | configureSymbols payload =>
    simp only [run, Stores.configureSymbols] at h ⊢
    cases hchecked : s.checkSymbols payload with
    | error e => exact hs
    | ok symbols =>
      simp only [hchecked] at h
      exact replace_settled h

theorem Sound.run (hs : Sound s) {c : Call} (h : AllOrNothing s (c.run faults s)) : Sound (c.run faults s).1 := by
  cases hresult : (c.run faults s).2 with
  | error e => exact ((allOrNothing_raised hresult).mp h).sound hs
  | ok u => exact (allOrNothing_returned hresult (Call.run_settled hs.symbolMap c hresult)).mp h

theorem Sound.arm (hs : Sound s) (armed : Bool) (copyMode : Option Mode) : Sound (s.arm armed copyMode) :=
  ⟨hs.copyConfigs, hs.symbolMap, hs.lane, hs.unsplit⟩

/-- Every call of a run has the property where it is made. -/
def Along (P : Faults → Stores → Call → Prop) : Stores → List Request → Prop
  | _, [] => True
  | s, .call c faults :: rest => P faults s c ∧ Along P (c.run faults s).1 rest
  | s, .arm armed copyMode :: rest => Along P (s.arm armed copyMode) rest

theorem Sound.along_iff (hs : Sound s) (requests : List Request) :
    Along (fun faults s c => AllOrNothing s (c.run faults s)) s requests ↔ Along Harmless s requests := by
  induction requests generalizing s with
  | nil => exact Iff.rfl
  | cons r requests ih =>
    cases r with
    | arm armed copyMode => exact ih (hs.arm armed copyMode)
    | call c faults =>
      have hcall := Call.run_iff faults hs c
      constructor
      · exact fun h => ⟨hcall.mp h.1, (ih (hs.run h.1)).mp h.2⟩
      · intro h
        have hdone := hcall.mpr h.1
        exact ⟨hdone, (ih (hs.run hdone)).mpr h.2⟩

/-- From any start, and whatever is asked in whatever order: every change of settings is all or
nothing just when each is harmless where it is made. -/
theorem settings_all_or_nothing {fault : Option WriteStep} {files : Files} (h : start fault files = .ok s)
    (requests : List Request) :
    Along (fun faults s c => AllOrNothing s (c.run faults s)) s requests ↔ Along Harmless s requests :=
  (start_sound h).along_iff requests

/-- Where the locale leaves the text of a lane as it is, the lane is read back. -/
theorem legible_of_locale {v : SignalSettings}
    (h : SettingsHost.readLocale (SignalSettings.codec.dump v) = .ok (SignalSettings.codec.dump v)) : Legible v := by
  have hread := SignalSettings.codec.read_dump v
  simp only [Legible, laneSettings, Option.map_some, h, bind, Except.bind, hread, Option.elim]

end Changes

section Sample

/-- Numbers and flags in the spelling they are saved in, and a locale whose encoding is UTF-8. -/
@[reducible] def sampleSettingsHost : SettingsHost where
  readNumber
    | .str s => some (.ofText s.toList)
    | _ => none
  readFlag
    | .bool b => some b
    | _ => none
  readLocale := .ok
  readNumber_dump d := congrArg some d.ofText_toString
  readFlag_dump _ := rfl

attribute [local instance] sampleSettingsHost

def sampleConfig : CopyConfig where
  id := ⟨"c1", by decide, by decide⟩
  name := ⟨"MAD to GTR", by decide, by decide⟩
  machineId := ⟨"HCAMM_MAD", by decide, by decide⟩
  source := defaultSource
  connectionName := noText 200
  additionalSources := []
  x17Only := false
  destinationBroker := ⟨"GTR", by decide, by decide⟩
  destinationAccount := ⟨"644953", by decide, by decide⟩
  acceptedGrades := []
  retractOnDowngrade := true
  sizing := .dollar
  sizingValue := some ⟨.ofNat 5, by decide⟩
  minBox := zero
  minBoxEnabled := false
  mode := .paper
  enabled := false

def sampleStores : Stores where
  copyConfigs := ⟨.empty, none⟩
  symbolMap := ⟨.empty, none⟩
  lane := ⟨none, none⟩
  armed := false
  copyMode := none

theorem sampleStores_started : start none ⟨none, none, none⟩ = .ok sampleStores := rfl

/-- A configuration is saved and enabled; it is the same again when a write fails. -/
def sampleRequests : List Request :=
  [.call (.upsert sampleConfig) {}, .call (.setState "c1" none (some true)) {}, .arm true (some .live),
    .call (.setState "c1" none (some true)) { copyConfigs := some .unlink }, .call (.delete "c2") { copyConfigs := some .write }]

theorem settings_all_or_nothing_sample :
    Along (fun faults s c => AllOrNothing s (c.run faults s)) sampleStores sampleRequests := by
  refine (settings_all_or_nothing sampleStores_started sampleRequests).mpr ⟨Or.inl rfl, Or.inl rfl, Or.inr ?_, Or.inr rfl, trivial⟩
  intro c hc
  cases hc
  rfl

/-- The disk is full: the call raises, and the configuration is in memory. -/
theorem unsaved_config_stays : ¬ ∀ (fault : Option WriteStep) (files : Files) (s : Stores), start fault files = .ok s →
    ∀ (c : Call) (faults : Faults), AllOrNothing s (c.run faults s) := by
  intro hall
  have hcall := hall none ⟨none, none, none⟩ sampleStores sampleStores_started (.upsert sampleConfig)
    { copyConfigs := some .write }
  have hkept : [sampleConfig] = [] := congrArg Keyed.rows hcall.copyConfigs.value
  cases hkept

end Sample

end Settings

end MatchTrader
