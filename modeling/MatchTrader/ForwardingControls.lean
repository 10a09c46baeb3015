import MatchTrader.Forwarding

/-! The controls of the forwarder are honoured whatever the interleaving. What carries the proof is
where a request stands against what is noted of it: a ticket of the current generation has seen no
change of the controls, and so the address in force is the one it was taken under. -/

namespace MatchTrader

theorem countP_modify {α : Type} {l : List α} {i : Nat} {a : α} (p : α → Bool) (f : α → α) (h : l[i]? = some a) :
    (l.modify i f).countP p + (p a).toNat = l.countP p + (p (f a)).toNat := by
  induction l generalizing i with
  | nil => simp at h
  | cons b rest ih =>
    cases i with
    | zero =>
      obtain rfl : b = a := by simpa using h
      simp only [List.modify_zero_cons, List.countP_cons]
      cases p b <;> cases p (f b) <;> simp
    | succ i =>
      have hrest := ih (i := i) (by simpa using h)
      simp only [List.modify_succ_cons, List.countP_cons]
      omega

section Controls

variable [WebHost] {f g : TradingBoxForwarder} {value url : String}

theorem validateUrl_ok (h : validateUrl value = .ok url) : url = value ∧ ∃ parsed, WebHost.urlsplit value = .ok parsed := by
  simp only [validateUrl, bind_eq_ok] at h
  obtain ⟨parsed, hparsed, _, _, _, _, _, _, _, _, _, _, _, _, h⟩ := h
  exact ⟨(Except.ok.inj h).symm, parsed, hparsed⟩

namespace TradingBoxForwarder

/-- The address of a forwarder is one that was checked, or none. -/
structure Addressed (f : TradingBoxForwarder) : Prop where
  readable : f.url = "" ∨ validateUrl f.url = .ok f.url
  armed : f.enabled = true → f.url ≠ ""

theorem optionalUrl_ok {given : String} (h : optionalUrl given = .ok url) : url = "" ∨ validateUrl url = .ok url := by
  unfold optionalUrl at h
  split at h
  · exact Or.inl (Except.ok.inj h).symm
  · obtain rfl := (validateUrl_ok h).1
    exact Or.inr h

theorem urlField_ok {value : Json} (h : urlField value = .ok url) : url = "" ∨ validateUrl url = .ok url := by
  unfold urlField at h
  split at h
  · exact optionalUrl_ok h
  · split at h
    · cases h
    · exact Or.inl (Except.ok.inj h).symm
  · exact Or.inl (Except.ok.inj h).symm

/-- New controls count as a generation, and change the address only where nothing is going on. -/
theorem configure_ok {value : Json} {fileFails : Bool} (h : f.configure value fileFails = .ok g) :
    g.generation = f.generation + 1 ∧ g.inFlight = f.inFlight ∧ g.Addressed
      ∧ (f.enabled = true ∨ f.inFlight ≠ 0 → g.url = f.url) := by
  simp only [configure, bind_eq_ok] at h
  obtain ⟨_, _, h⟩ := h
  split at h
  · next enabled live _ _ =>
    simp only [bind_eq_ok, raiseIf_eq_ok] at h
    obtain ⟨url, hurl, _, harmed, _, _, h⟩ := h
    have hread := urlField_ok hurl
    have harm : enabled = true → url ≠ "" := fun he hu => harmed ⟨he, hu⟩
    split at h
    · simp only [bind_eq_ok, raiseIf_eq_ok] at h
      obtain ⟨_, hidle, _, _, h⟩ := h
      obtain rfl := Except.ok.inj h
      exact ⟨rfl, rfl, ⟨hread, harm⟩, fun hbusy => absurd hbusy hidle⟩
    · next hsame =>
      obtain rfl := Except.ok.inj h
      exact ⟨rfl, rfl, ⟨hread, harm⟩, fun _ => not_not.mp hsame⟩
  · cases h

theorem activate_url (f : TradingBoxForwarder) (t : Ticket) (target : String) : (f.activate t target).2.url = f.url := by
  simp only [activate]
  split <;> rfl

theorem start_ok [Host] {apiKey authHeader : String} {saved : Option String} (h : start apiKey authHeader saved = .ok f) :
    f.Addressed ∧ f.generation = 0 ∧ f.inFlight = 0 := by
  simp only [start, bind_eq_ok] at h
  obtain ⟨_, _, _, _, url, hurl, h⟩ := h
  obtain rfl := Except.ok.inj h
  exact ⟨⟨optionalUrl_ok hurl, by simp⟩, rfl, rfl⟩

/-- A checked address reads, so a request in flight has somewhere to go. -/
theorem Addressed.destination (h : f.Addressed) (he : f.enabled = true) (target : String) :
    ∃ url, destination f.url target = .ok url := by
  obtain ⟨_, parsed, hparsed⟩ := validateUrl_ok (h.readable.resolve_left (h.armed he))
  exact ⟨"https://" ++ parsed.netloc ++ target, by simp only [TradingBoxForwarder.destination, hparsed]; rfl⟩

end TradingBoxForwarder

end Controls

namespace Note

/-- A note that is not about a reception does not count for it. -/
theorem sends_of_about {n : Note} {i : Nat} (h : n.about ≠ some i) : n.sends i = false := by
  cases n <;> simp_all [about, sends]

end Note

namespace Forwarding

variable [WebHost] {s t : Forwarding} {i k : Nat} {r : Reception} {url : String} {request : Forwarded}

/-- A request was passed on as it should be: it came in under a ticket taken while forwarding and
live were on, it is on record, the controls did not change from the ticket to the activation, and
it goes where the address of that time says. -/
def Granted (before : List Note) (i : Nat) (url : String) (request : Forwarded) : Prop :=
  ∃ k g u pre mid post, before = pre ++ .ticketed k ⟨g, true, true⟩ u :: (mid ++ .activated i :: post)
    ∧ mid.countP Note.control = 0 ∧ .received i k request ∈ mid ∧ .recorded i true ∈ mid
    ∧ TradingBoxForwarder.destination u request.target = .ok url

theorem Granted.append {before : List Note} (h : Granted before i url request) (more : List Note) :
    Granted (before ++ more) i url request := by
  obtain ⟨k, g, u, pre, mid, post, rfl, hmid⟩ := h
  exact ⟨k, g, u, pre, mid, post ++ more, by simp, hmid⟩

omit [WebHost] in
/-- The ticket was noted with the controls and the address of that time. -/
def Taken (s : Forwarding) (k : Nat) (t : Ticket) (post : List Note) : Prop :=
  ∃ pre u, s.notes = pre ++ .ticketed k t u :: post ∧ t.generation = pre.countP Note.control
    ∧ (post.countP Note.control = 0 → s.fwd.url = u)

/-- What is noted of a reception, given where it stands. -/
structure Followed (s : Forwarding) (i : Nat) (r : Reception) : Prop where
  activated : s.notes.count (.activated i) = r.phase.activated.toNat
  passedOn : s.notes.countP (Note.sends i) = r.phase.passedOn.toNat
  completed : s.notes.count (.completed i) = r.phase.completed.toNat
  refused : .recorded i false ∈ s.notes → r.phase = .aborted
  origin : ∃ t post, s.tickets[r.ticket]? = some t ∧ Taken s r.ticket t post
    ∧ .received i r.ticket r.request ∈ post ∧ (r.phase = .recorded → .recorded i true ∈ post)
  granted : ∀ url, r.phase = .active url → Granted s.notes i url r.request

structure Inv (s : Forwarding) : Prop where
  addressed : s.fwd.Addressed
  counted : s.fwd.generation = s.notes.countP Note.control
  taken : ∀ k t, s.tickets[k]? = some t → ∃ post, Taken s k t post
  followed : ∀ i r, s.receptions[i]? = some r → Followed s i r
  known : ∀ n ∈ s.notes, ∀ i, n.about = some i → i < s.receptions.length
  flight : s.fwd.inFlight = s.receptions.countP fun r => r.phase.inFlight
  granted : ∀ before i url request, before ++ [.sent i url request] <+: s.notes → Granted before i url request

section Frame

variable {more : List Note} {post : List Note} {ticket : Ticket}

omit [WebHost] in
theorem Taken.frame (h : Taken s k ticket post) (hn : t.notes = s.notes ++ more)
    (hu : more.countP Note.control = 0 → t.fwd.url = s.fwd.url) : Taken t k ticket (post ++ more) := by
  obtain ⟨pre, u, hnotes, hgen, hurl⟩ := h
  refine ⟨pre, u, by simp [hn, hnotes], hgen, fun hpost => ?_⟩
  rw [List.countP_append] at hpost
  rw [hu (by omega)]
  exact hurl (by omega)

/-- What concerns other receptions leaves this one where it stands. -/
theorem Followed.frame (h : Followed s i r) (hn : t.notes = s.notes ++ more)
    (hk : ∀ (k : Nat) (ticket : Ticket), s.tickets[k]? = some ticket → t.tickets[k]? = some ticket)
    (hu : more.countP Note.control = 0 → t.fwd.url = s.fwd.url) (ha : ∀ n ∈ more, n.about ≠ some i) :
    Followed t i r where
  activated := by
    have hmore : more.count (.activated i) = 0 := List.count_eq_zero.mpr fun hm => ha _ hm rfl
    rw [hn, List.count_append, h.activated, hmore, Nat.add_zero]
  passedOn := by
    have hmore : more.countP (Note.sends i) = 0 :=
      List.countP_eq_zero.mpr fun n hm => by simp [Note.sends_of_about (ha n hm)]
    rw [hn, List.countP_append, h.passedOn, hmore, Nat.add_zero]
  completed := by
    have hmore : more.count (.completed i) = 0 := List.count_eq_zero.mpr fun hm => ha _ hm rfl
    rw [hn, List.count_append, h.completed, hmore, Nat.add_zero]
  refused hm := by
    rw [hn] at hm
    rcases List.mem_append.mp hm with hm | hm
    · exact h.refused hm
    · exact absurd rfl (ha _ hm)
  origin := by
    obtain ⟨ticket, post, hticket, htaken, hreceived, hrecorded⟩ := h.origin
    exact ⟨ticket, post ++ more, hk _ _ hticket, htaken.frame hn hu, List.mem_append_left _ hreceived,
      fun hp => List.mem_append_left _ (hrecorded hp)⟩
  granted url hp := by
    rw [hn]
    exact (h.granted url hp).append more

theorem Followed.enter {p : Phase} (h : Followed s i r) (hn : t.notes = s.notes ++ more)
    (hk : t.tickets = s.tickets) (hu : t.fwd.url = s.fwd.url)
    (hactivated : r.phase.activated.toNat + more.count (.activated i) = p.activated.toNat)
    (hpassed : r.phase.passedOn.toNat + more.countP (Note.sends i) = p.passedOn.toNat)
    (hcompleted : r.phase.completed.toNat + more.count (.completed i) = p.completed.toNat)
    (hrefused : .recorded i false ∈ s.notes ++ more → p = .aborted) (hrecorded : p = .recorded → .recorded i true ∈ more)
    (hgranted : ∀ url, p = .active url → Granted (s.notes ++ more) i url r.request) :
    Followed t i (r.enter p) where
  activated := by
    have hold := h.activated
    rw [hn, List.count_append, hold]
    exact hactivated
  passedOn := by
    have hold := h.passedOn
    rw [hn, List.countP_append, hold]
    exact hpassed
  completed := by
    have hold := h.completed
    rw [hn, List.count_append, hold]
    exact hcompleted
  refused hm := hrefused (hn ▸ hm)
  origin := by
    obtain ⟨ticket, post, hticket, htaken, hreceived, _⟩ := h.origin
    exact ⟨ticket, post ++ more, by rw [hk]; exact hticket, htaken.frame hn fun _ => hu, List.mem_append_left _ hreceived,
      fun hp => List.mem_append_right _ (hrecorded hp)⟩
  granted url hp := by
    rw [hn]
    exact hgranted url hp

end Frame

section Sections

variable {more : List Note} {f : TradingBoxForwarder}

theorem granted_append {n : Note} (h : Inv s)
    (hn : ∀ i url request, n = .sent i url request → Granted s.notes i url request) :
    ∀ before i url request, before ++ [.sent i url request] <+: s.notes ++ [n] → Granted before i url request := by
  intro before i url request hpre
  rcases List.prefix_concat_iff.mp hpre with heq | hpre
  · obtain ⟨rfl, hsent⟩ := List.append_inj' heq rfl
    exact hn i url request (List.singleton_injective hsent).symm
  · exact h.granted before i url request hpre

/-- A section of one request moves it on and keeps the controls as they are. -/
theorem Inv.enter {p : Phase} (more : List Note) (h : Inv s) (hr : s.receptions[i]? = some r) (hshape : more = [] ∨ ∃ n, more = [n])
    (habout : ∀ n ∈ more, n.about = some i ∧ n.control = false)
    (ht : t = ⟨f, s.tickets, s.receptions.modify i (Reception.enter p), s.notes ++ more⟩)
    (hf : f.url = s.fwd.url ∧ f.enabled = s.fwd.enabled ∧ f.generation = s.fwd.generation)
    (hflight : f.inFlight + r.phase.inFlight.toNat = s.fwd.inFlight + p.inFlight.toNat)
    (hactivated : r.phase.activated.toNat + more.count (.activated i) = p.activated.toNat)
    (hpassed : r.phase.passedOn.toNat + more.countP (Note.sends i) = p.passedOn.toNat)
    (hcompleted : r.phase.completed.toNat + more.count (.completed i) = p.completed.toNat)
    (hrefused : .recorded i false ∈ s.notes ++ more → p = .aborted) (hrecorded : p = .recorded → .recorded i true ∈ more)
    (hgranted : ∀ url, p = .active url → Granted (s.notes ++ more) i url r.request)
    (hsent : ∀ j url request, .sent j url request ∈ more → Granted s.notes j url request) : Inv t := by
  have hnocontrol : more.countP Note.control = 0 := List.countP_eq_zero.mpr fun n hm => by simp [(habout n hm).2]
  have hi := (List.getElem?_eq_some_iff.mp hr).1
  subst ht
  refine ⟨⟨?_, ?_⟩, ?_, ?_, ?_, ?_, ?_, ?_⟩
  · show f.url = "" ∨ validateUrl f.url = .ok f.url
    rw [hf.1]
    exact h.addressed.readable
  · intro he
    show f.url ≠ ""
    rw [hf.1]
    exact h.addressed.armed (hf.2.1 ▸ he)
  · show f.generation = (s.notes ++ more).countP Note.control
    rw [hf.2.2, List.countP_append, hnocontrol, h.counted, Nat.add_zero]
  · intro k ticket hticket
    obtain ⟨post, hpost⟩ := h.taken k ticket hticket
    exact ⟨post ++ more, hpost.frame rfl fun _ => hf.1⟩
  · intro j r' hj
    rw [List.getElem?_modify] at hj
    by_cases hij : i = j
    · subst hij
      obtain rfl : r.enter p = r' := by simpa [hr] using hj
      exact (h.followed i r hr).enter rfl rfl hf.1 hactivated hpassed hcompleted hrefused hrecorded hgranted
    · have hj' : s.receptions[j]? = some r' := by simpa [hij] using hj
      refine (h.followed j r' hj').frame rfl (fun _ _ hk => hk) (fun _ => hf.1) fun n hn he => ?_
      exact hij (Option.some.inj ((habout n hn).1.symm.trans he))
  · intro n hn j hj
    show j < (s.receptions.modify i (Reception.enter p)).length
    rw [List.length_modify]
    rcases List.mem_append.mp hn with hn | hn
    · exact h.known n hn j hj
    · obtain rfl := Option.some.inj ((habout n hn).1.symm.trans hj)
      exact hi
  · have hcount := countP_modify (fun r => r.phase.inFlight) (Reception.enter p) hr
    have hs := h.flight
    show f.inFlight = (s.receptions.modify i (Reception.enter p)).countP _
    simp only [Reception.enter] at hcount ⊢
    omega
  · rcases hshape with rfl | ⟨n, rfl⟩
    · intro before j url request hpre
      exact h.granted before j url request (by simpa using hpre)
    · exact granted_append h fun j url request hn => hsent j url request (by simp [hn])

/-- What is noted beside the requests leaves them where they stand. -/
theorem Inv.aside {n : Note} {tickets : List Ticket} (h : Inv s) (habout : n.about = none)
    (hk : ∀ (k : Nat) (ticket : Ticket), s.tickets[k]? = some ticket → tickets[k]? = some ticket)
    (hf : f.Addressed) (hgen : f.generation = s.fwd.generation + [n].countP Note.control)
    (hurl : [n].countP Note.control = 0 → f.url = s.fwd.url) (hflight : f.inFlight = s.fwd.inFlight)
    (htaken : ∀ k t, tickets[k]? = some t → s.tickets[k]? = some t
      ∨ Taken ⟨f, tickets, s.receptions, s.notes ++ [n]⟩ k t []) :
    Inv ⟨f, tickets, s.receptions, s.notes ++ [n]⟩ where
  addressed := hf
  counted := by rw [hgen, h.counted, List.countP_append]
  taken k t ht := by
    rcases htaken k t ht with hold | hnew
    · obtain ⟨post, hpost⟩ := h.taken k t hold
      exact ⟨post ++ [n], hpost.frame rfl hurl⟩
    · exact ⟨[], hnew⟩
  followed i r hr := by
    refine (h.followed i r hr).frame rfl hk hurl fun m hm => ?_
    obtain rfl := List.mem_singleton.mp hm
    simp [habout]
  known m hm i hi := by
    rcases List.mem_append.mp hm with hm | hm
    · exact h.known m hm i hi
    · obtain rfl := List.mem_singleton.mp hm
      simp [habout] at hi
  flight := hflight.trans h.flight
  granted := granted_append h fun i url request hn => by simp [hn, Note.about] at habout

theorem Inv.ticket (h : Inv s) (ht : s.step .ticket = some t) : Inv t := by
  obtain rfl := Option.some.inj ht
  refine h.aside rfl ?_ h.addressed rfl (fun _ => rfl) rfl ?_
  · intro k ticket hk
    exact (List.getElem?_append_left (List.getElem?_eq_some_iff.mp hk).1).trans hk
  · intro k ticket hk
    by_cases hlt : k < s.tickets.length
    · exact Or.inl ((List.getElem?_append_left hlt).symm.trans hk)
    · have hge : s.tickets.length ≤ k := by omega
      rw [List.getElem?_append_right hge, List.getElem?_singleton] at hk
      split at hk
      · next hzero =>
        obtain rfl : k = s.tickets.length := by omega
        obtain rfl := Option.some.inj hk
        exact Or.inr ⟨s.notes, s.fwd.url, rfl, h.counted, fun _ => rfl⟩
      · cases hk

theorem Inv.configure {value : Json} {fileFails : Bool} (h : Inv s) (ht : s.step (.configure value fileFails) = some t) :
    Inv t := by
  simp only [step] at ht
  split at ht
  · next f hf =>
    obtain ⟨hgen, hflight, haddressed, _⟩ := TradingBoxForwarder.configure_ok hf
    obtain rfl := Option.some.inj ht
    exact h.aside rfl (fun _ _ hk => hk) haddressed hgen (fun hc => by simp [Note.control] at hc) hflight
      fun _ _ hk => Or.inl hk
  · obtain rfl := Option.some.inj ht
    exact h

theorem Inv.close (h : Inv s) (ht : s.step .close = some t) : Inv t := by
  obtain rfl := Option.some.inj ht
  exact h.aside rfl (fun _ _ hk => hk) ⟨h.addressed.readable, fun he => by simp [TradingBoxForwarder.close] at he⟩ rfl
    (fun hc => by simp [Note.control] at hc) rfl fun _ _ hk => Or.inl hk

theorem Inv.fresh {ticket : Ticket} (h : Inv s) (hk : s.tickets[r.ticket]? = some ticket)
    (hn : t.notes = s.notes ++ [.received s.receptions.length r.ticket r.request]) (ht : t.tickets = s.tickets)
    (hu : t.fwd.url = s.fwd.url) (hp : r.phase = .called ∨ r.phase = .aborted) : Followed t s.receptions.length r := by
  have hfresh : ∀ m ∈ s.notes, m.about ≠ some s.receptions.length := fun m hm he =>
    absurd (h.known m hm _ he) (Nat.lt_irrefl _)
  have hactivated : s.notes.count (.activated s.receptions.length) = 0 :=
    List.count_eq_zero.mpr fun hm => hfresh _ hm rfl
  have hsends : s.notes.countP (Note.sends s.receptions.length) = 0 :=
    List.countP_eq_zero.mpr fun m hm => by simp [Note.sends_of_about (hfresh m hm)]
  have hcompleted : s.notes.count (.completed s.receptions.length) = 0 :=
    List.count_eq_zero.mpr fun hm => hfresh _ hm rfl
  obtain ⟨post, hpost⟩ := h.taken r.ticket ticket hk
  refine ⟨?_, ?_, ?_, ?_, ?_, ?_⟩
  · rw [hn, List.count_append, hactivated]
    rcases hp with hp | hp <;> simp [hp, Phase.activated, Phase.inFlight]
  · rw [hn, List.countP_append, hsends]
    rcases hp with hp | hp <;> simp [hp, Phase.passedOn, Phase.activated, Phase.inFlight, Note.sends]
  · rw [hn, List.count_append, hcompleted]
    rcases hp with hp | hp <;> simp [hp, Phase.completed]
  · intro hm
    rw [hn] at hm
    rcases List.mem_append.mp hm with hm | hm
    · exact absurd rfl (hfresh _ hm)
    · simp at hm
  · refine ⟨ticket, post ++ [.received s.receptions.length r.ticket r.request], by rw [ht]; exact hk,
      hpost.frame hn fun _ => hu, by simp, fun hr => ?_⟩
    rcases hp with hp | hp <;> simp [hp] at hr
  · intro url hr
    rcases hp with hp | hp <;> simp [hp] at hr

theorem Inv.receive {cycleId : String} (h : Inv s) (ht : s.step (.receive k request cycleId) = some t) : Inv t := by
  simp only [step] at ht
  split at ht
  · next hk =>
    obtain ⟨ticket, hticket⟩ : ∃ ticket, s.tickets[k]? = some ticket := ⟨_, List.getElem?_eq_getElem hk⟩
    obtain ⟨p, hp, hphase⟩ : ∃ p : Phase, (if accepts request then .called else .aborted) = p ∧ (p = .called ∨ p = .aborted) := by
      by_cases ha : accepts request = true <;> simp [ha]
    rw [hp] at ht
    have hquiet : p.inFlight = false := by rcases hphase with rfl | rfl <;> rfl
    obtain rfl := Option.some.inj ht
    refine ⟨h.addressed, ?_, ?_, ?_, ?_, ?_, ?_⟩
    · have hcount := h.counted
      simp [note, hcount, Note.control]
    · intro k ticket hticket
      obtain ⟨post, hpost⟩ := h.taken k ticket hticket
      exact ⟨_, hpost.frame rfl fun _ => rfl⟩
    · intro i r' hi
      by_cases hlt : i < s.receptions.length
      · rw [List.getElem?_append_left hlt] at hi
        refine (h.followed i r' hi).frame rfl (fun _ _ hk => hk) (fun _ => rfl) fun m hm he => ?_
        obtain rfl := List.mem_singleton.mp hm
        have hi' : s.receptions.length = i := Option.some.inj he
        omega
      · rw [List.getElem?_append_right (by omega), List.getElem?_singleton] at hi
        split at hi
        · obtain rfl : i = s.receptions.length := by omega
          obtain rfl := Option.some.inj hi
          exact h.fresh hticket rfl rfl rfl hphase
        · cases hi
    · intro m hm i hi
      simp only [List.length_append, List.length_singleton]
      rcases List.mem_append.mp hm with hm | hm
      · exact Nat.lt_succ_of_lt (h.known m hm i hi)
      · obtain rfl := List.mem_singleton.mp hm
        obtain rfl := Option.some.inj hi
        exact Nat.lt_succ_self _
    · have hs := h.flight
      simp [note, hquiet, hs]
    · exact granted_append h fun i url request hn => by cases hn
  · cases ht

/-- Nothing is on record as failed of a request that is under way. -/
theorem Inv.unrefused (h : Inv s) (hr : s.receptions[i]? = some r) (hp : r.phase ≠ .aborted) :
    .recorded i false ∉ s.notes := fun hm => hp ((h.followed i r hr).refused hm)

theorem Inv.onward {p : Phase} (h : Inv s) (hr : s.receptions[i]? = some r)
    (ht : t = ⟨f, s.tickets, s.receptions.modify i (Reception.enter p), s.notes⟩)
    (hf : f.url = s.fwd.url ∧ f.enabled = s.fwd.enabled ∧ f.generation = s.fwd.generation ∧ f.inFlight = s.fwd.inFlight)
    (hp : r.phase.inFlight = p.inFlight ∧ r.phase.activated = p.activated ∧ r.phase.passedOn = p.passedOn
      ∧ r.phase.completed = p.completed ∧ r.phase ≠ .aborted ∧ p ≠ .recorded ∧ ∀ url, p ≠ .active url) : Inv t := by
  obtain ⟨hurl, henabled, hgen, hsame⟩ := hf
  obtain ⟨hflight, hactivated, hpassed, hcompleted, haborted, hrecorded, hactive⟩ := hp
  refine h.enter [] hr (Or.inl rfl) (by simp) (by simpa using ht) ⟨hurl, henabled, hgen⟩ ?_ ?_ ?_ ?_ ?_ ?_ ?_ ?_
  · rw [hsame, hflight]
  · rw [hactivated, List.count_nil, Nat.add_zero]
  · rw [hpassed, List.countP_nil, Nat.add_zero]
  · rw [hcompleted, List.count_nil, Nat.add_zero]
  · intro hm
    rw [List.append_nil] at hm
    exact absurd hm (h.unrefused hr haborted)
  · exact fun he => absurd he hrecorded
  · exact fun url he => absurd he (hactive url)
  · simp

theorem Inv.record {fails : Bool} (h : Inv s) (ht : s.step (.record i fails) = some t) : Inv t := by
  simp only [step] at ht
  split at ht
  · next k request cycleId hr =>
    obtain rfl := Option.some.inj ht
    have hold := h.unrefused hr (by simp)
    refine h.enter [.recorded i !fails] hr (Or.inr ⟨_, rfl⟩) ?_ rfl ⟨rfl, rfl, rfl⟩ ?_ ?_ ?_ ?_ ?_ ?_ ?_ ?_
    · simp [Note.about, Note.control]
    · cases fails <;> simp [Phase.inFlight, note]
    · cases fails <;> simp [Phase.activated, Phase.inFlight]
    · cases fails <;> simp [Phase.passedOn, Phase.activated, Phase.inFlight, Note.sends]
    · cases fails <;> simp [Phase.completed]
    · cases fails <;> simp [hold]
    · cases fails <;> simp
    · cases fails <;> simp
    · simp
  · cases ht

/-- A request is activated under a ticket that has seen no change of the controls. -/
theorem Inv.grant {ticket : Ticket} {cycleId : String} (h : Inv s)
    (hr : s.receptions[i]? = some ⟨k, request, cycleId, .recorded⟩) (hk : s.tickets[k]? = some ticket)
    (hticket : ticket = ⟨s.fwd.generation, true, true⟩)
    (hurl : TradingBoxForwarder.destination s.fwd.url request.target = .ok url) :
    Granted (s.notes ++ [.activated i]) i url request := by
  obtain ⟨held, mid, hheld, ⟨pre, u, hnotes, hgen, hsame⟩, hreceived, hrecorded⟩ := (h.followed i _ hr).origin
  obtain rfl := Option.some.inj (hk.symm.trans hheld)
  have hcount := h.counted
  rw [hnotes, List.countP_append, List.countP_cons_of_neg (by simp [Note.control])] at hcount
  have hmid : mid.countP Note.control = 0 := by
    rw [hticket] at hgen
    simp only at hgen
    omega
  refine ⟨k, s.fwd.generation, u, pre, mid, [], ?_, hmid, hreceived, hrecorded rfl, ?_⟩
  · rw [hnotes, hticket]
    simp
  · rw [← hsame hmid]
    exact hurl

theorem Inv.activate (h : Inv s) (ht : s.step (.activate i) = some t) : Inv t := by
  simp only [step] at ht
  split at ht
  · next k request cycleId hr =>
    split at ht
    · next ticket hticket =>
      simp only [TradingBoxForwarder.activate] at ht
      by_cases ha : ticket = ⟨s.fwd.generation, true, true⟩ ∧ s.fwd.enabled = true ∧ s.fwd.live = true
      · obtain ⟨url, hurl⟩ := h.addressed.destination ha.2.1 request.target
        simp only [ha, hurl, and_self, if_true] at ht
        obtain rfl := Option.some.inj ht
        have hold := h.unrefused hr (by simp)
        refine h.enter [.activated i] hr (Or.inr ⟨_, rfl⟩) ?_ rfl ⟨rfl, ha.2.1.symm, rfl⟩ ?_ ?_ ?_ ?_ ?_ ?_ ?_ ?_
        · simp [Note.about, Note.control]
        · simp [Phase.inFlight]
        · simp [Phase.activated, Phase.inFlight]
        · simp [Phase.passedOn, Phase.activated, Phase.inFlight, Note.sends]
        · simp [Phase.completed]
        · simp [hold]
        · simp
        · intro url' he
          obtain rfl := Phase.active.inj he
          exact h.grant hr hticket ha.1 hurl
        · simp
      · rw [if_neg ha] at ht
        obtain rfl := Option.some.inj ht
        exact h.onward hr rfl ⟨rfl, rfl, rfl, rfl⟩ (by
          simp [Phase.inFlight, Phase.activated, Phase.passedOn, Phase.completed])
    · cases ht
  · cases ht

theorem Inv.send (h : Inv s) (ht : s.step (.send i) = some t) : Inv t := by
  simp only [step] at ht
  split at ht
  · next k request cycleId url hr =>
    obtain rfl := Option.some.inj ht
    have hold := h.unrefused hr (by simp)
    refine h.enter [.sent i url request] hr (Or.inr ⟨_, rfl⟩) ?_ rfl ⟨rfl, rfl, rfl⟩ ?_ ?_ ?_ ?_ ?_ ?_ ?_ ?_
    · simp [Note.about, Note.control]
    · simp [Phase.inFlight, note]
    · simp [Phase.activated, Phase.inFlight]
    · simp [Phase.passedOn, Phase.activated, Phase.inFlight, Note.sends]
    · simp [Phase.completed]
    · simp [hold]
    · simp
    · simp
    · intro j url' request' hm
      obtain ⟨rfl, rfl, rfl⟩ := Note.sent.inj (List.mem_singleton.mp hm)
      exact (h.followed _ _ hr).granted _ rfl
  · cases ht

theorem Inv.reply {upstream : Option (Int × String)} (h : Inv s) (ht : s.step (.reply i upstream) = some t) : Inv t := by
  simp only [step] at ht
  split at ht
  · next k request cycleId hr =>
    obtain rfl := Option.some.inj ht
    refine h.onward hr rfl ⟨rfl, rfl, rfl, rfl⟩ ?_
    cases upstream <;> simp [Phase.inFlight, Phase.activated, Phase.passedOn, Phase.completed]
  · cases ht

theorem Inv.settle (h : Inv s) (ht : s.step (.settle i) = some t) : Inv t := by
  simp only [step] at ht
  split at ht
  · next hr =>
    obtain rfl := Option.some.inj ht
    exact h.onward hr rfl ⟨rfl, rfl, rfl, rfl⟩ (by
      simp [Phase.inFlight, Phase.activated, Phase.passedOn, Phase.completed])
  · next hr =>
    obtain rfl := Option.some.inj ht
    exact h.onward hr rfl ⟨rfl, rfl, rfl, rfl⟩ (by
      simp [Phase.inFlight, Phase.activated, Phase.passedOn, Phase.completed])
  · cases ht

theorem Inv.recordReply {fails : Bool} (h : Inv s) (ht : s.step (.recordReply i fails) = some t) : Inv t := by
  simp only [step] at ht
  split at ht
  · next k request cycleId status reason answered hr =>
    obtain rfl := Option.some.inj ht
    refine h.onward hr rfl ?_ (by simp [Phase.inFlight, Phase.activated, Phase.passedOn, Phase.completed])
    split
    · exact ⟨rfl, rfl, rfl, rfl⟩
    · exact ⟨rfl, rfl, rfl, rfl⟩
  · cases ht

theorem Inv.complete (h : Inv s) (ht : s.step (.complete i) = some t) : Inv t := by
  simp only [step] at ht
  split at ht
  · next k request cycleId status reason hr =>
    obtain rfl := Option.some.inj ht
    have hold := h.unrefused hr (by simp)
    have hpos : 0 < s.fwd.inFlight := by
      rw [h.flight, List.countP_pos_iff]
      exact ⟨_, List.mem_of_getElem? hr, rfl⟩
    refine h.enter [.completed i] hr (Or.inr ⟨_, rfl⟩) ?_ rfl ⟨rfl, rfl, rfl⟩ ?_ ?_ ?_ ?_ ?_ ?_ ?_ ?_
    · simp [Note.about, Note.control]
    · simp only [Phase.inFlight, TradingBoxForwarder.complete, Bool.toNat_true, Bool.toNat_false]
      omega
    · simp [Phase.activated, Phase.inFlight]
    · simp [Phase.passedOn, Phase.activated, Phase.inFlight, Note.sends]
    · simp [Phase.completed]
    · simp [hold]
    · simp
    · simp
    · simp
  · cases ht

theorem Inv.step {x : Section} (h : Inv s) (ht : s.step x = some t) : Inv t := by
  cases x with
  | ticket => exact h.ticket ht
  | configure => exact h.configure ht
  | close => exact h.close ht
  | receive => exact h.receive ht
  | record => exact h.record ht
  | activate => exact h.activate ht
  | send => exact h.send ht
  | reply => exact h.reply ht
  | settle => exact h.settle ht
  | recordReply => exact h.recordReply ht
  | complete => exact h.complete ht

theorem Inv.run {xs : List Section} (h : Inv s) (ht : s.run xs = some t) : Inv t := by
  induction xs generalizing s with
  | nil => exact Option.some.inj ht ▸ h
  | cons x rest ih =>
    obtain ⟨u, hu, hrest⟩ := Option.bind_eq_some_iff.mp ht
    exact ih (h.step hu) hrest

/-- The address does not change while forwarding is on or a request is in flight. -/
theorem step_url {x : Section} (ht : s.step x = some t) (hbusy : s.fwd.enabled = true ∨ s.fwd.inFlight ≠ 0) :
    t.fwd.url = s.fwd.url := by
  cases x with
  | configure value fileFails =>
    simp only [step] at ht
    split at ht
    · next f hf =>
      obtain rfl := Option.some.inj ht
      exact (TradingBoxForwarder.configure_ok hf).2.2.2 hbusy
    · obtain rfl := Option.some.inj ht
      rfl
  | ticket | close =>
    obtain rfl := Option.some.inj ht
    rfl
  | activate i =>
    simp only [step] at ht
    split at ht
    · split at ht
      · next k request cycleId hr _ ticket hk =>
        have hurl := TradingBoxForwarder.activate_url s.fwd ticket request.target
        split at ht <;> next f hf =>
          obtain rfl := Option.some.inj ht
          rw [hf] at hurl
          exact hurl
      · cases ht
    · cases ht
  | receive | record | send | reply | settle | recordReply | complete =>
    simp only [step] at ht
    repeat' split at ht
    all_goals first | cases ht; done | skip
    all_goals
      obtain rfl := Option.some.inj ht
      rfl

theorem Inv.start [Host] {apiKey authHeader : String} {saved : Option String}
    (hf : TradingBoxForwarder.start apiKey authHeader saved = .ok f) : Inv { fwd := f } := by
  obtain ⟨haddressed, hgen, hflight⟩ := TradingBoxForwarder.start_ok hf
  exact ⟨haddressed, hgen, by simp, by simp, by simp, hflight, by simp⟩

/-- A request is in flight from its activation to its completion. -/
theorem Followed.inFlight_iff (h : Followed s i r) :
    r.phase.inFlight = true ↔ .activated i ∈ s.notes ∧ .completed i ∉ s.notes := by
  have hactivated := h.activated
  have hcompleted := h.completed
  rw [← List.count_pos_iff, ← List.count_pos_iff, hactivated, hcompleted]
  cases r.phase <;> simp [Phase.inFlight, Phase.activated, Phase.completed]

theorem Inv.sent_once (h : Inv s) (i : Nat) : s.notes.countP (Note.sends i) ≤ 1 := by
  by_cases hi : i < s.receptions.length
  · have hr : s.receptions[i]? = some s.receptions[i] := List.getElem?_eq_getElem hi
    rw [(h.followed i _ hr).passedOn]
    exact Bool.toNat_le _
  · have hnone : s.notes.countP (Note.sends i) = 0 := by
      rw [List.countP_eq_zero]
      intro n hn hs
      have hni : n.about = some i := by
        by_contra habout
        rw [Note.sends_of_about habout] at hs
        cases hs
      exact hi (h.known n hn i hni)
    omega

/-- A request that could not be put on record is not passed on. -/
theorem Inv.unsent (h : Inv s) (hi : .recorded i false ∈ s.notes) : .sent i url request ∉ s.notes := by
  intro hsent
  have hlt : i < s.receptions.length := h.known _ hi i rfl
  have hr : s.receptions[i]? = some s.receptions[i] := List.getElem?_eq_getElem hlt
  have hf := h.followed i _ hr
  have hpassed := hf.passedOn
  rw [hf.refused hi] at hpassed
  have hpos : 0 < s.notes.countP (Note.sends i) := List.countP_pos_iff.mpr ⟨_, hsent, by simp [Note.sends]⟩
  rw [hpassed] at hpos
  exact absurd hpos (by decide)

end Sections

end Forwarding

open Forwarding in
/-- Whatever the callers do and in whatever order, a request is passed on at most once and as it was
granted, the address stays while forwarding is on or anything is in flight, and what is in flight is
what was activated and has not completed. -/
theorem forwarding_controls_honoured [WebHost] [Host] {apiKey authHeader : String} {saved : Option String}
    {f : TradingBoxForwarder} {xs : List Section} {s : Forwarding}
    (hf : TradingBoxForwarder.start apiKey authHeader saved = .ok f) (h : run { fwd := f } xs = some s) :
    (∀ i, s.notes.countP (Note.sends i) ≤ 1)
      ∧ (∀ before i url request, before ++ [.sent i url request] <+: s.notes → Granted before i url request)
      ∧ (∀ x t, s.step x = some t → s.fwd.enabled = true ∨ s.fwd.inFlight ≠ 0 → t.fwd.url = s.fwd.url)
      ∧ s.fwd.inFlight = s.receptions.countP (fun r => r.phase.inFlight)
      ∧ (∀ i r, s.receptions[i]? = some r →
        (r.phase.inFlight = true ↔ .activated i ∈ s.notes ∧ .completed i ∉ s.notes))
      ∧ (∀ i, .recorded i false ∈ s.notes → ∀ url request, .sent i url request ∉ s.notes) := by
  have hinv := (Inv.start hf).run h
  exact ⟨hinv.sent_once, hinv.granted, fun _ _ ht hbusy => step_url ht hbusy, hinv.flight,
    fun i r hr => (hinv.followed i r hr).inFlight_iff, fun _ hi _ _ => hinv.unsent hi⟩

section Sample

attribute [local instance] sampleHost sampleWebHost

def sampleForwarder : TradingBoxForwarder :=
  { apiKey := "key", authHeader := "x-hcamm-key", url := "https://tradingbox.pro/api/hcamm/events" }

/-- Forwarding goes live, and a request comes in, is passed on and answered. -/
def samplePassedOn : List Section :=
  [.configure (.obj [("url", .str "https://tradingbox.pro/api/hcamm/events"), ("enabled", .bool true),
      ("live", .bool true)]) false,
    .ticket, .receive 0 ⟨"POST", "/api/hcamm/events", [], [1, 2]⟩ "cycle", .record 0 false, .activate 0, .send 0,
    .reply 0 (some (422, "Rejected")), .settle 0, .recordReply 0 false, .complete 0]

theorem forwarding_controls_honoured_sample : ∃ s, Forwarding.run { fwd := sampleForwarder } samplePassedOn = some s
    ∧ s.notes.countP (Note.sends 0) = 1 ∧ ∀ i, s.notes.countP (Note.sends i) ≤ 1 := by
  have hf : TradingBoxForwarder.start "key" "x-hcamm-key" (some "https://tradingbox.pro/api/hcamm/events")
      = .ok sampleForwarder := by
    rfl
  have hs : (Forwarding.run { fwd := sampleForwarder } samplePassedOn).any
      (fun s => s.notes.countP (Note.sends 0) = 1) = true := by
    decide +kernel
  obtain ⟨s, hrun, hsent⟩ := (Option.any_eq_true _ _).mp hs
  exact ⟨s, hrun, by simpa using hsent, (forwarding_controls_honoured hf hrun).1⟩

end Sample

end MatchTrader
