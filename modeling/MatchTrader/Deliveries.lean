import MatchTrader.Lanes

/-! The controller's deliveries take only steps. A bridge order is sent for the event at
hand, so what the lane has copied of its lifecycle is known when it is sent. -/

namespace MatchTrader

open Durable

section Candidates

theorem candidateEvent_eq {j k : Journal} {f : EventRow → EventRow} {seq : Nat}
    (hf : ∀ r, (f r).tradeId = r.tradeId ∧ (f r).payload = r.payload)
    (h : k.events = Rows.updateWhere (fun r => r.seq = seq) f j.events) (i : String) :
    k.candidateEvent i = j.candidateEvent i := by
  have hg (r : EventRow) : (if decide (r.seq = seq) then f r else r).tradeId = r.tradeId
      ∧ (if decide (r.seq = seq) then f r else r).payload = r.payload := by
    split
    · exact hf r
    · exact ⟨rfl, rfl⟩
  simp only [Journal.candidateEvent, h, Rows.updateWhere, List.filter_map, List.getLast?_map, Option.map_map]
  have hc : ((fun r : EventRow => decide (r.tradeId = some i ∧ r.payload.kind = .accepted
      ∧ r.payload.action = .create)) ∘ fun r => if decide (r.seq = seq) then f r else r)
      = fun r : EventRow => decide (r.tradeId = some i ∧ r.payload.kind = .accepted ∧ r.payload.action = .create) := by
    funext r
    simp only [Function.comp_apply, (hg r).1, (hg r).2]
  rw [hc]
  congr 1
  funext r
  exact (hg r).2

theorem candidateEvent_append {j k : Journal} {row : EventRow} {e : CaptureEvent} {i : String}
    (h : k.events = j.events ++ [row]) (hp : row.payload = e) (ht : row.tradeId = some i) (hk : e.kind = .accepted)
    (ha : e.action = .create) : k.candidateEvent i = some e := by
  subst hp
  simp [Journal.candidateEvent, h, List.filter_append, ht, hk, ha]

end Candidates

variable [Host] {R : Rules} {w v : World} {A : (q : Query) → Reply q → Prop}

theorem wp_widen {α : Type} {G : World → World → Prop} [Hosting R G] {p : Act α} (hI : Inv w)
    (h : p.wp A (Local R) (fun _ v => Idle v) (fun _ v => Idle v) w) :
    p.wp A G (fun _ v => Idle v) (fun _ v => Idle v) w :=
  Prog.wp_consequence (wp_local hI h) (fun _ _ h => h.2) fun _ _ h => h.2

namespace Router

variable {e : CaptureEvent} {destination : String} {route : Option RouteConfig}

omit [Host] in
theorem dispatchOnArrival_disarmed {identity : Option String} {G : World → World → Prop} :
    (dispatchOnArrival disarmed route e identity none destination).wp A G (fun _ v => v = w) (fun _ v => v = w) w := by
  unfold dispatchOnArrival
  split
  · rw [Prog.wp_tryCatch]
    unfold dispatch
    simp only [disarmed, Bool.false_eq_true, false_and, if_false]
    rw [Prog.wp_throw]
    split <;> exact rfl
  · exact rfl

/-- A create that a disarmed router records for the first time is its trade's candidate. -/
theorem receive_candidate (hI : Inv w) (hi : Idle w) :
    (receive disarmed route e none destination).wp A (Local R)
      (fun r v => Idle v ∧ (r.duplicate = false → e.kind = .accepted → e.action = .create → ∀ i, r.tradeId = some i →
        v.journal.candidateEvent i = some e)) (fun _ v => Idle v) w := by
  unfold receive
  refine wp_then (M := fun a v => Idle v ∧ (a.2 = false → a.1.payload = e ∧ ∃ j : Journal,
    v.journal.events = j.events ++ [a.1])) (F := fun _ v => Idle v) hI ?_ ?_ fun _ _ _ _ h => h
  · exact Store.wp_record hI (Or.inl rfl) (fun _ => hi) fun a j hj hn =>
      ⟨hi.imp_right fun h a ha => h a (hj.attempts ▸ ha), fun hd => ⟨(hn hd).1, w.journal, (hn hd).2⟩⟩
  · rintro ⟨row, duplicate⟩ v _ hI ⟨hi, hn⟩
    cases duplicate with
    | true =>
      have hd : (receiveAgain e row).wp A (Local R) (fun r v => Idle v ∧ r.duplicate = true) (fun _ v => Idle v) v := by
        unfold receiveAgain
        rw [Prog.wp_bind, wp_readsWorld]
        simp only
        rw [Prog.wp_bind]
        unfold recoverDecision
        split
        · rw [Prog.wp_bind]
          exact Store.wp_decision (Or.inl rfl) ⟨hi, rfl⟩
        · exact ⟨hi, rfl⟩
      exact Prog.wp_consequence hd (fun r _ h => ⟨h.1, fun hf => by simp [h.2] at hf⟩) fun _ _ h => h
    | false =>
      obtain ⟨hp, j, hj⟩ := hn rfl
      simp only [Bool.false_eq_true, if_false]
      refine wp_then (M := fun _ u => u = v) (F := fun _ u => u = v) hI dispatchOnArrival_disarmed ?_
        fun _ _ _ _ h => h ▸ hi
      rintro ⟨status, reason⟩ u _ _ rfl
      rw [Prog.wp_bind]
      refine Store.wp_decision (Or.inl rfl) ⟨hi, fun _ hk ha i ht => ?_⟩
      refine (candidateEvent_eq (j := u.journal) ?_ rfl i).trans (candidateEvent_append hj hp ht hk ha)
      exact fun _ => ⟨rfl, rfl⟩

end Router

namespace Controller

omit [Host] in
theorem contain_idle {α : Type} {p : Act α} {f : Exc → α} {G : World → World → Prop}
    (h : p.wp A G (fun _ v => Idle v) (fun _ v => Idle v) w) :
    (contain p f).wp A G (fun _ v => Idle v) (fun _ v => Idle v) w := by
  unfold contain
  rw [Prog.wp_tryCatch]
  refine Prog.wp_consequence h (fun _ _ h => h) fun e v hi => ?_
  split <;> exact hi

theorem wp_memory {f : Memory → Memory} {P : Unit → World → Prop} {E : Exc → World → Prop}
    (hf : ∀ m, (f m).r01Episodes = m.r01Episodes) (h : P () { w with mem := f w.mem }) :
    (setMem f).wp A (Served R) P E w := ⟨⟨.single (.memory _), hf _⟩, h⟩

theorem wp_within {α : Type} {l : LaneId} {p : Act α} {P : α → World → Prop} {E : Exc → World → Prop}
    (h : p.wp A (Within R l) P E w) : p.wp A (Served R) P E w :=
  Prog.wp_mono h (fun _ _ => id) (fun _ _ => Within.served) (fun _ _ => id) fun _ _ => id

theorem laneFor_idle {id : String} (hI : Inv w) (hi : Idle w) :
    (laneFor id).wp A (Served R) (fun _ v => Idle v) (fun _ v => Idle v) w := by
  unfold laneFor
  rw [Prog.wp_bind]
  unfold ensureLane
  rw [Prog.wp_bind, wp_readsWorld]
  split
  · exact hi
  · exact wp_then hI (wp_within (SignalCopy.openLane_idle hi)) (fun _ _ _ _ hi => wp_memory (fun _ => rfl) hi) fun _ _ _ _ h => h

theorem deliver_idle {config : CopyConfig} {elements : List Json} (hR : R.Plain) (hI : Inv w) (hi : Idle w) :
    (deliver config elements).wp A (Served R) (fun _ v => Idle v) (fun _ v => Idle v) w := by
  unfold deliver
  refine wp_then hI (laneFor_idle hI hi) ?_ fun _ _ _ _ h => h
  intro lane v _ hI hi
  refine wp_then (M := fun _ v => Idle v) (F := fun _ v => Idle v) hI (wp_memory (fun _ => rfl) hi) ?_ fun _ _ _ _ h => h
  intro _ v _ hI hi
  rw [Prog.wp_bind, wp_readsWorld]
  refine contain_idle ?_
  rw [Prog.wp_discard]
  exact wp_within (SignalCopy.receive_idle hI hi hR.closed hR.known fun _ => rfl)

theorem routeToConfigs_idle {payload : List Json} (hR : R.Plain) (hI : Inv w) (hi : Idle w) :
    (routeToConfigs payload).wp A (Served R) (fun _ v => Idle v) (fun _ v => Idle v) w := by
  unfold routeToConfigs
  rw [Prog.wp_bind, wp_readsWorld]
  split
  · refine wp_each (I := fun _ v => Idle v) w.mem.configs hI (fun config _ v _ hI hi => ?_) hi
    unfold routeToConfig
    split
    · exact deliver_idle hR hI hi
    · exact hi
  · exact hi

theorem receiveSignals_idle {payload : List Json} (hR : R.Plain) (hI : Inv w) (hi : Idle w) :
    (receiveSignals payload).wp A (Served R) (fun _ v => Idle v) (fun _ v => Idle v) w := by
  unfold receiveSignals
  rw [Prog.wp_bind, wp_readsWorld]
  refine wp_then (M := fun _ v => Idle v) (F := fun _ v => Idle v) hI
    (wp_within (SignalCopy.receive_idle hI hi hR.closed hR.known fun _ => rfl)) ?_ fun _ _ _ _ h => h
  intro results v _ hI hi
  rw [Prog.wp_bind]
  exact routeToConfigs_idle hR hI hi

theorem copyR01Row_idle {row : LedgerRow} (hR : R.Plain) (hI : Inv w) (hi : Idle w) :
    (copyR01Row row).wp A (Steps R) (fun _ v => Idle v) (fun _ v => Idle v) w := by
  unfold copyR01Row
  rw [Prog.wp_bind, wp_readsWorld]
  split
  · exact hi
  · simp only
    split
    · exact hi
    · refine wp_then (M := fun _ v => Idle v) (F := fun _ v => Idle v) hI ⟨.single (.memory _), hi⟩ ?_ fun _ _ _ _ h => h
      intro _ v _ hI hi
      split
      · exact hi
      · refine contain_idle ?_
        rw [Prog.wp_map]
        exact wp_steps (SignalCopy.receive_idle hI hi hR.closed hR.known fun _ => rfl)

theorem markSince_idle {id : String} (hi : Idle w) :
    (markSince id).wp A (Served R) (fun _ v => Idle v) (fun _ v => Idle v) w := by
  unfold markSince
  rw [Prog.wp_bind, wp_now]
  exact fun at_ _ => wp_memory (fun _ => rfl) hi

theorem configureCopyControls_idle {mode : Mode} {sources : List Source} (hi : Idle w) :
    (configureCopyControls mode sources).wp A (Served R) (fun _ v => Idle v) (fun _ v => Idle v) w := by
  unfold configureCopyControls
  rw [Prog.wp_bind, wp_now]
  exact fun at_ _ => wp_memory (fun _ => rfl) hi

theorem configureCopyConfig_idle {config : CopyConfig} (hI : Inv w) (hi : Idle w) :
    (configureCopyConfig config).wp A (Served R) (fun _ v => Idle v) (fun _ v => Idle v) w := by
  unfold configureCopyConfig
  rw [Prog.wp_bind, wp_readsWorld, Prog.wp_bind, wp_raiseIf]
  refine ⟨fun _ => hi, fun _ => ?_⟩
  rw [Prog.wp_bind, wp_raiseIf]
  refine ⟨fun _ => hi, fun _ => ?_⟩
  refine wp_then (M := fun _ v => Idle v) (F := fun _ v => Idle v) hI (wp_memory (fun _ => rfl) hi) ?_ fun _ _ _ _ h => h
  intro _ v _ hI hi
  rw [Prog.wp_bind]
  refine Prog.wp_consequence (laneFor_idle hI hi) (fun _ v hi => ?_) fun _ _ h => h
  split
  · exact markSince_idle hi
  · exact hi

theorem setCopyConfigState_idle {id : String} {mode : Option Mode} {enabled : Option Bool} (hi : Idle w) :
    (setCopyConfigState id mode enabled).wp A (Served R) (fun _ v => Idle v) (fun _ v => Idle v) w := by
  unfold setCopyConfigState
  rw [Prog.wp_bind, wp_raiseIf]
  refine ⟨fun _ => hi, fun _ => ?_⟩
  rw [Prog.wp_bind, wp_readsWorld]
  split
  · exact hi
  · rw [Prog.wp_bind]
    refine wp_memory (fun _ => rfl) ?_
    split
    · exact markSince_idle hi
    · exact hi

theorem deleteCopyConfig_idle {id : String} (hi : Idle w) :
    (deleteCopyConfig id).wp A (Served R) (fun _ v => Idle v) (fun _ v => Idle v) w := by
  unfold deleteCopyConfig
  rw [Prog.wp_bind, wp_raiseIf]
  refine ⟨fun _ => hi, fun _ => ?_⟩
  rw [Prog.wp_bind, wp_readsWorld, Prog.wp_bind, wp_raiseIf]
  exact ⟨fun _ => hi, fun _ => wp_memory (fun _ => rfl) hi⟩

omit [Host] in
theorem sendSession_ok {m : Memory} {api : Option Api} (h : sendSession m = .ok api) :
    ∀ a ∈ api, a.accountId = m.selected := by
  unfold sendSession at h
  split at h
  · simp only [bind_eq_ok, raiseIf_eq_ok] at h
    obtain ⟨_, _, _, _, h⟩ := h
    split at h
    · next b hb =>
      obtain rfl := Except.ok.inj h
      rintro a ⟨⟩
      simpa using (Option.filter_eq_some_iff.mp hb).2
    · simp at h
  · obtain rfl := Except.ok.inj h
    simp

theorem sendTrade_idle {tradeId : String} {volume : Json} (hI : Inv w) (hi : Idle w) :
    (sendTrade tradeId volume).wp A (Local R) (fun _ v => Idle v) (fun _ v => Idle v) w := by
  unfold sendTrade
  rw [Prog.wp_bind, wp_raiseIf]
  refine ⟨fun _ => hi, fun _ => ?_⟩
  rw [Prog.wp_bind, wp_readsWorld, Prog.wp_bind, Prog.wp_ofExcept]
  refine ⟨fun api ha => ?_, fun _ _ => hi⟩
  refine ManualSend.send_idle hI hi ⟨fun hs => ?_, fun _ h => by simp at h⟩
  obtain ⟨a, rfl⟩ := Option.isSome_iff_exists.mp hs
  exact sendSession_ok ha a rfl ▸ a.accountId_ne

theorem refreshPositions_idle (hI : Inv w) (hi : Idle w) :
    refreshPositions.wp A (Local R) (fun _ v => Idle v) (fun _ v => Idle v) w := by
  unfold refreshPositions
  rw [Prog.wp_bind, wp_readsWorld]
  split
  · exact hi
  · exact Reconcile.pass_idle hI hi

end Controller

namespace Automatic

open Controller

variable {e : CaptureEvent} {identity : String} {r : NativeResult}

theorem recordDecision_idle (hi : Idle w) :
    (recordDecision e r).wp A (Served R) (fun _ v => Idle v) (fun _ v => Idle v) w := by
  unfold recordDecision
  rw [Prog.wp_bind, wp_readsWorld]
  split
  · exact hi
  · exact Prog.wp_mono (Store.wp_decision (R := R) (Or.inl rfl) hi) (fun _ _ => id) (fun _ _ => Hosting.ofLocal)
      (fun _ _ h => h) fun _ _ h => h

theorem create_idle (hI : Inv w) (hi : Idle w) (hc : w.journal.candidateEvent identity = some e) :
    (create e identity r).wp A (Local R) (fun _ v => Idle v) (fun _ v => Idle v) w := by
  unfold create
  rw [Prog.wp_bind, wp_readsWorld]
  simp only [id]
  rw [Prog.wp_bind, wp_raiseIf]
  refine ⟨fun _ => hi, fun hn => ?_⟩
  split
  · exact hi
  · next route _ =>
    rw [Prog.wp_bind, Prog.wp_ofExcept]
    refine ⟨fun mapping _ => ?_, fun _ _ => hi⟩
    rw [Prog.wp_bind, wp_raiseIf]
    refine ⟨fun _ => hi, fun _ => ?_⟩
    rw [Prog.wp_bind, wp_now]
    intro at_ _
    rw [Prog.wp_bind, wp_raiseIf]
    refine ⟨fun _ => hi, fun _ => ?_⟩
    rw [Prog.wp_bind, wp_raiseIf]
    refine ⟨fun _ => hi, fun hv => ?_⟩
    rw [Prog.wp_bind, Prog.wp_ofExcept]
    refine ⟨fun lots _ => ?_, fun _ _ => hi⟩
    rw [Prog.wp_bind, wp_raiseIf]
    refine ⟨fun _ => hi, fun _ => ?_⟩
    rw [Prog.wp_bind]
    refine ManualSend.send_idle hI hi ⟨fun hs => ?_, fun c _ hc' hx => ?_⟩
    · split at hs
      · next hm =>
        have hd : w.mem.destinationVerified = true := by
          by_contra hd
          exact hv ⟨hm, Or.inr (by simpa using hd)⟩
        obtain ⟨a, ha⟩ := Option.isSome_iff_exists.mp hs
        simp only [Memory.destinationVerified, ha, Bool.and_eq_true, Option.any_some, decide_eq_true_eq] at hd
        exact hd.2 ▸ a.accountId_ne
      · simp at hs
    · obtain rfl := Option.some.inj (hc.symm.trans hc')
      by_contra hcop
      exact hn ⟨hx, hcop⟩

theorem cancelSignalCopy_idle {rows : List SignalRow} (hR : R.Plain) (hI : Inv w) (hi : Idle w) :
    (cancelSignalCopy e rows r).wp A (Served R) (fun _ v => Idle v) (fun _ v => Idle v) w := by
  unfold cancelSignalCopy
  split
  · rw [Prog.wp_bind]
    refine Prog.wp_consequence (receiveSignals_idle hR hI hi) (fun results v hi => ?_) fun _ _ h => h
    split <;> exact hi
  · exact hi

theorem settle_idle {p : Act NativeResult} (hI : Inv w)
    (h : p.wp A (Served R) (fun _ v => Idle v) (fun _ v => Idle v) w) :
    (settle e r p).wp A (Served R) (fun _ v => Idle v) (fun _ v => Idle v) w := by
  unfold settle
  refine wp_then (M := fun _ v => Idle v) (F := fun _ v => Idle v) hI ?_ ?_ fun _ _ _ _ h => h
  · exact wp_try hI h fun _ _ _ _ hi => hi
  · intro _ v _ _ hi
    rw [Prog.wp_bind]
    exact recordDecision_idle hi

theorem settleSignal_idle {p : Act NativeResult} (hI : Inv w)
    (h : p.wp A (Served R) (fun _ v => Idle v) (fun _ v => Idle v) w) :
    (settleSignal e r p).wp A (Served R) (fun _ v => Idle v) (fun _ v => Idle v) w := by
  unfold settleSignal
  refine wp_then (M := fun _ v => Idle v) (F := fun _ v => Idle v) hI ?_ ?_ fun _ _ _ _ h => h
  · refine wp_try (F := fun _ v => Idle v) hI ?_ fun _ _ _ _ hi => hi
    rw [Prog.wp_map]
    exact h
  · intro updated v _ hI hi
    cases updated with
    | ok r =>
      refine wp_try (F := fun _ v => Idle v) hI ?_ fun _ _ _ _ hi => ?_
      · rw [Prog.wp_bind]
        exact recordDecision_idle hi
      · rw [Prog.wp_bind]
        exact recordDecision_idle hi
    | error r =>
      simp only
      rw [Prog.wp_bind]
      exact recordDecision_idle hi

theorem cancel_idle (hI : Inv w) (hi : Idle w) :
    (cancel e identity r).wp A (Local R) (fun _ v => Idle v) (fun _ v => Idle v) w := by
  unfold cancel
  rw [Prog.wp_bind, wp_readsWorld]
  simp only
  rw [Prog.wp_bind]
  refine Prog.wp_consequence (Unwind.apply_idle hI hi) (fun o v h => ?_) fun _ _ h => h
  split <;> exact h.2

theorem act_idle (hR : R.Plain) (hI : Inv w) (hi : Idle w)
    (hc : e.action = .create → w.journal.candidateEvent identity = some e)
    (ha : e.action = .create ∨ e.action = .cancel) :
    (act e identity r).wp A (Served R) (fun _ v => Idle v) (fun _ v => Idle v) w := by
  unfold act
  rw [Prog.wp_bind, wp_readsWorld]
  extract_lets trade rows
  split
  · split
    · exact settle_idle hI hi
    · split
      · exact settleSignal_idle hI (cancelSignalCopy_idle hR hI hi)
      · exact settle_idle hI (wp_widen hI (cancel_idle hI hi))
  · next hn => exact settle_idle hI (wp_widen hI (create_idle hI hi (hc (ha.resolve_right hn))))

theorem receive_idle (hR : R.Plain) (hI : Inv w) (hi : Idle w) :
    (receive e).wp A (Served R) (fun _ v => Idle v) (fun _ v => Idle v) w := by
  unfold receive
  rw [Prog.wp_bind, wp_readsWorld]
  refine wp_then hI (wp_local hI (Router.receive_candidate hI hi)) ?_ fun _ _ _ _ h => h.2
  rintro r v _ hI ⟨_, hi, hc⟩
  split
  · exact hi
  · next identity ht =>
    split
    · exact hi
    · next hn =>
      simp only [not_or, not_and_or, not_not] at hn
      exact act_idle hR hI hi (fun ha => hc (by simpa using hn.1) hn.2.1 ha identity ht) hn.2.2

end Automatic

namespace Controller

theorem receiveNative_idle {e : CaptureEvent} {captureGeneration : Option Nat} (hR : R.Plain) (hI : Inv w)
    (hi : Idle w) :
    (receiveNative e captureGeneration).wp A (Served R) (fun _ v => Idle v) (fun _ v => Idle v) w := by
  unfold receiveNative
  rw [Prog.wp_bind, wp_readsWorld, Prog.wp_bind, wp_raiseIf]
  exact ⟨fun _ => hi, fun _ => Automatic.receive_idle hR hI hi⟩

end Controller

end MatchTrader
