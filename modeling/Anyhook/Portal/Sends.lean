import Anyhook.Portal.Authority

/-! What `engine.send` comes to: which lists of patterns an event type can be matched against,
the messages a new event leaves on the queue, and what a pattern that throws does to the whole
send. -/
namespace Anyhook.Portal
open Anyhook.Core Anyhook.Testing Anyhook.Lib.Program Anyhook.Lib.OrderedMap

variable {A : Type}

/-! ## Patterns that matching gets through -/

/-- A pattern that is no string stands behind a `*` only. -/
def readable : List Json → Bool
  | [] => true
  | .str s :: rest => s = "*" || readable rest
  | _ :: _ => false

section Patterns
variable {p : Platform} {α : Type}

theorem patternMatches_str (p : Platform) (s ty : String) :
    patternMatches p (.str s) (.str ty) =
      .ok (s = "*" || s = ty ||
        (".*".toList.isSuffixOf s.toList && s.toList.dropLast.isPrefixOf ty.toList)) := by
  unfold patternMatches
  by_cases hstar : s = "*"
  · simp [hstar, Json.same]
  · by_cases hty : s = ty
    · simp [hty, Json.same]
    · by_cases hsuf : ".*".toList.isSuffixOf s.toList = true
      · simp only [Json.same, hstar, hty, hsuf, decide_false, Bool.or_false, Bool.false_or,
          Bool.false_eq_true, if_false, if_true, Bool.true_and]
      · simp only [Json.same, hstar, hty, hsuf, decide_false, Bool.or_false,
          Bool.false_eq_true, if_false, Bool.false_and]

/-- Matching an event type against readable patterns returns. -/
theorem anyMatches_readable {l : List Json} (h : readable l = true) (ty : String) :
    ∃ b, anyMatches p (.str ty) l = .ok b := by
  induction l with
  | nil => exact ⟨false, rfl⟩
  | cons pattern rest ih =>
    cases pattern with
    | str s =>
      unfold anyMatches
      rw [patternMatches_str]
      by_cases hm : (s = "*" || s = ty || (".*".toList.isSuffixOf s.toList &&
          s.toList.dropLast.isPrefixOf ty.toList)) = true
      · rw [hm]
        exact ⟨true, rfl⟩
      · rw [Bool.not_eq_true] at hm
        rw [hm]
        simp only [Bool.or_eq_false_iff, decide_eq_false_iff_not] at hm
        have hrest : readable rest = true := by simpa [readable, hm.1.1] using h
        exact ih hrest
    | _ => cases h

/-- A type of `n` letters. No wildcard with a dot is a prefix of it. -/
def letters (n : Nat) : String := String.ofList (List.replicate n 'a')

theorem letters_unmatched {s : String} {n : Nat} (hstar : s ≠ "*") (hlen : s.toList.length < n) :
    patternMatches p (.str s) (.str (letters n)) = .ok false := by
  rw [patternMatches_str]
  have hne : s ≠ letters n := by
    intro h
    rw [h, letters, String.toList_ofList, List.length_replicate] at hlen
    omega
  have hdot : (".*".toList.isSuffixOf s.toList &&
      s.toList.dropLast.isPrefixOf (letters n).toList) = false := by
    rw [Bool.eq_false_iff]
    intro h
    obtain ⟨hsuf, hpre⟩ := Bool.and_eq_true_iff.mp h
    obtain ⟨front, hfront⟩ := List.isSuffixOf_iff_suffix.mp hsuf
    have hmem : '.' ∈ s.toList.dropLast := by
      rw [← hfront, show ".*".toList = ['.', '*'] from rfl, List.append_cons,
        List.dropLast_concat]
      simp
    have hletter := (List.isPrefixOf_iff_prefix.mp hpre).subset hmem
    rw [letters, String.toList_ofList] at hletter
    exact absurd (List.eq_of_mem_replicate hletter) (by decide)
  rw [hdot]
  simp [hstar, hne]

/-- Other patterns throw on some event type. -/
theorem anyMatches_unreadable {l : List Json} {n : Nat} (h : ¬ readable l = true)
    (hn : ∀ s, Json.str s ∈ l → s.toList.length < n) :
    ∃ x, anyMatches p (.str (letters n)) l = .error x := by
  induction l with
  | nil => exact absurd rfl h
  | cons pattern rest ih =>
    unfold anyMatches
    cases pattern with
    | str s =>
      obtain ⟨hstar, hrest⟩ : s ≠ "*" ∧ ¬ readable rest = true := by
        simpa only [readable, Bool.or_eq_true, decide_eq_true_eq, not_or] using h
      rw [letters_unmatched hstar (hn s List.mem_cons_self)]
      exact ih hrest fun s hs => hn s (List.mem_cons_of_mem _ hs)
    | _ => exact ⟨_, rfl⟩

theorem exists_longer (l : List String) : ∃ n, 0 < n ∧ ∀ s ∈ l, s.toList.length < n := by
  induction l with
  | nil => exact ⟨1, Nat.one_pos, by simp⟩
  | cons s rest ih =>
    obtain ⟨n, hpos, hn⟩ := ih
    refine ⟨n + s.toList.length + 1, by omega, ?_⟩
    intro t ht
    rcases List.mem_cons.mp ht with rfl | ht
    · omega
    · have := hn t ht
      omega

/-- A filter whose predicate returns on every item returns, with the items it is true of. -/
theorem filterM_ok {f : α → Except String Bool} {l : List α}
    (h : ∀ a ∈ l, ∃ b, f a = .ok b) :
    ∃ kept, filterM f l = .ok kept ∧ ∀ a, a ∈ kept ↔ a ∈ l ∧ f a = .ok true := by
  induction l with
  | nil => exact ⟨[], rfl, by simp⟩
  | cons a rest ih =>
    obtain ⟨kept, hkept, hmem⟩ := ih fun b hb => h b (List.mem_cons_of_mem _ hb)
    obtain ⟨b, hb⟩ := h a List.mem_cons_self
    unfold filterM
    rw [hb, hkept]
    cases b with
    | true =>
      refine ⟨a :: kept, rfl, ?_⟩
      intro x
      by_cases hx : x = a
      · simp [hx, hb]
      · simp [hx, hmem]
    | false =>
      refine ⟨kept, rfl, ?_⟩
      intro x
      by_cases hx : x = a
      · subst hx
        simp [hmem, hb]
      · simp [hx, hmem]

theorem filterM_error {f : α → Except String Bool} {l : List α} {a : α} (ha : a ∈ l) {x : String}
    (hx : f a = .error x) : ∃ y, filterM f l = .error y := by
  induction l with
  | nil => cases ha
  | cons b rest ih =>
    unfold filterM
    cases hb : f b with
    | error y => exact ⟨y, rfl⟩
    | ok keep =>
      have hrest : a ∈ rest := by
        rcases List.mem_cons.mp ha with rfl | hrest
        · rw [hx] at hb
          cases hb
        · exact hrest
      obtain ⟨y, hy⟩ := ih hrest
      rw [hy]
      cases keep <;> exact ⟨y, rfl⟩

end Patterns

/-! ## What a send does -/

section Sending
variable {p : Platform} {ambient : Nat → Ambient} {s : JsWorld A × Nat}

/-- The endpoints are as they were. -/
def SameEndpoints (w w' : JsWorld A) : Prop :=
  ∀ t, (w'.tenants t).endpoints = (w.tenants t).endpoints

theorem SameEndpoints.modify {w w' : JsWorld A} (h : SameEndpoints w w') {t : String}
    {d : JsTenant A t} (hd : d.endpoints = (w'.tenants t).endpoints) :
    SameEndpoints w (w'.modify t d) := by
  intro u
  by_cases hu : u = t
  · subst hu
    rw [modify_self, hd, h u]
  · rw [modify_other w' hu, h u]

theorem port_ends (op : PortalOp) {r : PortalAns A op} {w : JsWorld A}
    (h : exec p (ambient s.2) op s.1 = (.ok r, w)) :
    Prog.Ends (execAt p ambient) (port op : Handler A _) (fun a t => a = r ∧ t.1 = w) s := by
  have hexec : execAt p ambient op s = (.ok (.ok r), (w, s.2 + 1)) := by
    unfold execAt
    rw [h]
  exact Prog.ends_call hexec (Prog.ends_pure ⟨rfl, rfl⟩)

theorem draws_ends (n : Nat) :
    Prog.Ends (execAt p ambient) (draws n : Handler A _) (fun _ t => t.1 = s.1) s := by
  induction n generalizing s with
  | zero => exact Prog.ends_pure rfl
  | succ n ih =>
    refine (port_ends .next rfl).bind ?_
    intro draw s' hs'
    refine ih.bind ?_
    intro rest t ht
    exact Prog.ends_pure (ht.trans hs'.2)

theorem newId_ends (pre : String) :
    Prog.Ends (execAt p ambient) (newId pre : Handler A _) (fun _ t => t.1 = s.1) s := by
  refine (draws_ends 20).bind ?_
  intro ds t ht
  exact Prog.ends_pure ht

/-- Fan-out makes a message for each endpoint it is given. -/
theorem messagesFor_ends (event : JsEvent) (payload : Json) (eventId : String) (now : Time)
    (es : List JsEndpoint) :
    Prog.Ends (execAt p ambient) (messagesFor event payload eventId now es : Handler A _)
      (fun ms t => t.1 = s.1 ∧
        ∀ e ∈ es, ∃ id, freshMessage event payload eventId now e id ∈ ms) s := by
  induction es generalizing s with
  | nil => exact Prog.ends_pure ⟨rfl, by simp⟩
  | cons e rest ih =>
    refine (newId_ends "msg").bind ?_
    intro id s' hs'
    refine ih.bind ?_
    intro ms t ht
    refine Prog.ends_pure ⟨ht.1.trans hs', ?_⟩
    intro x hx
    rcases List.mem_cons.mp hx with rfl | hx
    · exact ⟨id, List.mem_cons_self⟩
    · obtain ⟨id', hid'⟩ := ht.2 x hx
      exact ⟨id', List.mem_cons_of_mem _ hid'⟩

theorem enqueueAll_ends (ms : List JsMessage) :
    Prog.Ends (execAt p ambient) (enqueueAll ms : Handler A _)
      (fun _ t => t.1.queue = s.1.queue ++ ms ∧ SameEndpoints s.1 t.1) s := by
  induction ms generalizing s with
  | nil => exact Prog.ends_pure ⟨by simp, fun _ => rfl⟩
  | cons m rest ih =>
    refine (port_ends (.putMessage m) rfl).bind ?_
    intro _ s₁ h₁
    refine (port_ends (.transportSend m) rfl).bind ?_
    intro _ s₂ h₂
    refine ih.mono ?_
    intro _ t ht
    have hqueue : s₂.1.queue = s.1.queue ++ [m] := by
      rw [h₂.2, h₁.2]
      rfl
    have hkept : SameEndpoints s.1 s₂.1 := by
      rw [h₂.2, h₁.2]
      exact SameEndpoints.modify (fun _ => rfl) rfl
    refine ⟨?_, fun u => (ht.2 u).trans (hkept u)⟩
    rw [ht.1, hqueue, List.append_assoc, List.singleton_append]

/-- What the end of an accepted event shows. -/
def AcceptedIn (p : Platform) (event : JsEvent) (payload key : Json) (w : JsWorld A)
    (receipt : Receipt) (w' : JsWorld A) : Prop :=
  receipt.accepted = true ∧ SameEndpoints w w' ∧ ∃ messages, w'.queue = w.queue ++ messages ∧
    (findEvent key (w.tenants event.tenant).events = none →
      ∀ e ∈ (w.tenants event.tenant).endpoints.values, e.disabled.truthy = false →
        subscribes p e event.type = .ok true →
        ∃ id now, freshMessage event payload receipt.eventId now e id ∈ messages)

/-- Matching and fan-out on endpoints whose patterns all match or do not. -/
theorem matched_ends (ambient : Nat → Ambient) (event : JsEvent) (payload : Json) (eventId : String)
    (hall : ∀ e ∈ (s.1.tenants event.tenant).endpoints.values,
      ∃ b, subscribes p e event.type = .ok b) :
    Prog.Ends (execAt p ambient) (do
        let endpoints ← port (.matchEndpoints event.tenant event.type)
        let now ← port .now
        fanout p event payload eventId now endpoints : Handler A _)
      (fun ms t => t.1 = s.1 ∧ ∀ e ∈ (s.1.tenants event.tenant).endpoints.values,
        e.disabled.truthy = false → subscribes p e event.type = .ok true →
        ∃ id now, freshMessage event payload eventId now e id ∈ ms) s := by
  obtain ⟨matching, hmatch, hmem⟩ := filterM_ok hall
  refine (port_ends (.matchEndpoints event.tenant event.type) (r := matching)
    (w := s.1) ?_).bind ?_
  · exact Prod.ext hmatch rfl
  intro endpoints s₁ h₁
  obtain ⟨hendpoints, hw₁⟩ := h₁
  rw [hendpoints]
  refine (port_ends .now rfl).bind ?_
  intro now s₂ h₂
  -- an endpoint that matched in the store is asked again by `fanout`
  obtain ⟨wanting, hwant, hmem'⟩ := filterM_ok
    (f := fun e => if e.disabled.truthy then .ok false else subscribes p e event.type)
    (l := matching) (by
      intro e he
      obtain ⟨hin, -⟩ := (hmem e).mp he
      by_cases hd : e.disabled.truthy = true
      · exact ⟨false, if_pos hd⟩
      · simpa only [if_neg hd] using hall e hin)
  unfold fanout
  rw [hwant]
  refine (messagesFor_ends event payload eventId now wanting).mono ?_
  intro ms t ht
  refine ⟨ht.1.trans (h₂.2.trans hw₁), ?_⟩
  intro e he hon hsub
  have hwanted : e ∈ wanting := by
    refine (hmem' e).mpr ⟨(hmem e).mpr ⟨he, hsub⟩, ?_⟩
    simpa [hon] using hsub
  obtain ⟨id, hid⟩ := ht.2 e hwanted
  exact ⟨id, now, hid⟩

theorem accept_ends (ambient : Nat → Ambient) {event : JsEvent} {payload key : Json}
    (hkey : keyOf p event payload = .ok key)
    (hall : ∀ e ∈ (s.1.tenants event.tenant).endpoints.values,
      ∃ b, subscribes p e event.type = .ok b) :
    Prog.Ends (execAt p ambient) (accept p event payload : Handler A _)
      (fun receipt t => AcceptedIn p event payload key s.1 receipt t.1) s := by
  unfold accept
  rw [hkey]
  refine (newId_ends "evt").bind ?_
  intro eventId s₁ h₁
  refine (port_ends (.recordEvent event.tenant eventId key) rfl).bind ?_
  intro _ s₂ h₂
  obtain ⟨rfl, hw₂⟩ := h₂
  rw [h₁] at hw₂ ⊢
  unfold recordEvent at hw₂ ⊢
  cases hfind : findEvent key (s.1.tenants event.tenant).events with
  | some existing =>
    simp only [hfind] at hw₂
    have hkept : SameEndpoints s.1 s₂.1 := by
      rw [hw₂]
      exact SameEndpoints.modify (fun _ => rfl) rfl
    refine Prog.ends_pure ⟨rfl, hkept, [], ?_, ?_⟩
    · rw [hw₂, List.append_nil]
      rfl
    · intro hnone
      rw [hfind] at hnone
      cases hnone
  | none =>
    simp only [hfind] at hw₂
    have hkept : SameEndpoints s.1 s₂.1 := by
      rw [hw₂]
      exact SameEndpoints.modify (fun _ => rfl) rfl
    have hqueue : s₂.1.queue = s.1.queue := by
      rw [hw₂]
      rfl
    have hmatched := matched_ends ambient event payload eventId
      (by rw [hkept event.tenant]; exact hall)
    rw [hkept event.tenant] at hmatched
    have hrest := hmatched.bind (f := fun messages => do
      enqueueAll messages
      port (.finalizeEvent event.tenant key eventId messages.length)
      return (⟨eventId, true, messages.length⟩ : Receipt))
      (Q := fun receipt t => AcceptedIn p event payload key s.1 receipt t.1) (by
        intro ms s₃ h₃
        refine (enqueueAll_ends ms).bind ?_
        intro _ s₄ h₄
        refine (port_ends (.finalizeEvent event.tenant key eventId ms.length) rfl).bind ?_
        intro _ s₅ h₅
        refine Prog.ends_pure ⟨rfl, ?_, ms, ?_, fun _ => h₃.2⟩
        · rw [h₅.2]
          exact SameEndpoints.modify (fun t => by rw [h₄.2 t, h₃.1, hkept t]) rfl
        · rw [h₅.2]
          exact h₄.1.trans (by rw [h₃.1, hqueue]))
    simpa only [bind_assoc, if_true] using hrest

/-- Where matching throws, so does the send of a new event. -/
theorem accept_throws (ambient : Nat → Ambient) {event : JsEvent} {payload key : Json}
    (hkey : keyOf p event payload = .ok key)
    (hnew : findEvent key (s.1.tenants event.tenant).events = none) {e : JsEndpoint}
    (he : e ∈ (s.1.tenants event.tenant).endpoints.values) {x : String}
    (hx : subscribes p e event.type = .error x) :
    ∃ y, ((accept p event payload : Handler A _).run (execAt p ambient) s).1 = .error y := by
  unfold accept
  rw [hkey]
  refine (newId_ends "evt").throws ?_
  intro eventId s₁ h₁
  refine (port_ends (.recordEvent event.tenant eventId key) rfl).throws ?_
  intro _ s₂ h₂
  obtain ⟨rfl, hw₂⟩ := h₂
  rw [h₁] at hw₂ ⊢
  simp only [recordEvent, hnew] at hw₂ ⊢
  have he₂ : e ∈ (s₂.1.tenants event.tenant).endpoints.values := by
    rw [hw₂, modify_self]
    exact he
  obtain ⟨y, hy⟩ := filterM_error (f := fun e => subscribes p e event.type) he₂ hx
  refine ⟨.error y, ?_⟩
  show ((port (.matchEndpoints event.tenant event.type) >>= _ : Handler A _).run _ s₂).1 = _
  rw [Prog.run_bind]
  have hport : (port (.matchEndpoints event.tenant event.type) : Handler A _).run
      (execAt p ambient) s₂ = (.error (.error y), (s₂.1, s₂.2 + 1)) := by
    have hexec : execAt p ambient (.matchEndpoints event.tenant event.type) s₂ =
        (.ok (.error y), (s₂.1, s₂.2 + 1)) := by
      simp only [execAt, exec, hy]
    unfold port
    rw [Prog.perform_bind, Prog.run_call_ok hexec]
    rfl
  rw [hport]

end Sending

end Anyhook.Portal
