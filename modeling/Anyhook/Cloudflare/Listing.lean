import Anyhook.Testing.Pool
import Anyhook.Cloudflare.SameStore
import Anyhook.Cloudflare.Tenants

/-! A limited listing over a whole tenant. Each endpoint's object sorts its rows and cuts them
to the limit before the store merges them and cuts again. The result is the beginning of
what one stable sort of all the rows would give, after any calls whatever: messages of one
id may stand with several endpoints, and attempts may come before their message. -/
namespace Anyhook.Cloudflare.Store
open Anyhook.Core Anyhook.Testing Anyhook.Lib Anyhook.Lib.Program Anyhook.Lib.OrderedMap
open Anyhook.Lib.Sorted

/-! ## What the calls have filed -/

section Filed
variable {N : Type} [LinearOrder N] {fmt : NumberText N} {log : List Attempt} {c : Cloud}

def appended? : Call N → Option Attempt
  | .store (.appendAttempt a) => some a
  | _ => none

/-- Of all attempts, those for a message of an endpoint, in the order they were appended. -/
def attemptsAt (log : List Attempt) (tenant endpointId messageId : String) : List Attempt :=
  log.filter fun a => a.tenant = tenant ∧ a.endpointId = endpointId ∧ a.messageId = messageId

/-- An attempt log as it is stored: from the first attempt on. -/
def logVal : List Attempt → Option Val
  | [] => none
  | a :: log => some (.attempts (a :: log))

/-- A row with the tag of endpoints is one, and so is one with the tag of messages, which
stands with its endpoint. -/
def Fits (o : Stub) (key : String) (v : Val) : Prop :=
  (Family.endpoint.tag.toList.isPrefixOf key.toList = true → ∃ e, v = .endpoint e) ∧
  (Family.message.tag.toList.isPrefixOf key.toList = true →
    ∃ m, v = .message m ∧ o = endpointStub m.tenant m.endpointId)

structure Filed (log : List Attempt) (c : Cloud) : Prop where
  fits : ∀ o, ∀ p ∈ (c o).entries, Fits o p.1 p.2
  logged : ∀ t ep id,
    (c (endpointStub t ep)).get ("att:" ++ id) = logVal (attemptsAt log t ep id)

theorem filed_empty : Filed [] .empty where
  fits := by
    intro o p hp
    cases hp
  logged _ _ _ := rfl

theorem ne_attemptsKey {key : String}
    (hkey : Family.attempts.tag.toList.isPrefixOf key.toList = false) (id : String) :
    key ≠ "att:" ++ id := by
  intro heq
  have htag := (Slot.tag_prefix_iff .attempts (.attempts "" "" id)).mpr rfl
  rw [heq] at hkey
  exact absurd (hkey.symm.trans htag) (by decide)

/-- A write elsewhere than to an attempt log. -/
theorem Filed.put (h : Filed log c) {o : Stub} {key : String} {v : Val} (hfits : Fits o key v)
    (hkey : Family.attempts.tag.toList.isPrefixOf key.toList = false) :
    Filed log (c.put o key v) where
  fits := by
    intro o' p hp
    unfold Cloud.put at hp
    by_cases ho : o' = o
    · subst ho
      rw [Function.update_self] at hp
      obtain rfl | hp := OMap.mem_setList hp
      · exact hfits
      · exact h.fits o' p hp
    · rw [Function.update_of_ne ho] at hp
      exact h.fits o' p hp
  logged := by
    intro t ep id
    rw [← h.logged t ep id]
    unfold Cloud.put
    by_cases ho : endpointStub t ep = o
    · rw [← ho, Function.update_self, OMap.get_set_of_ne _ (ne_attemptsKey hkey id)]
    · rw [Function.update_of_ne ho]

theorem Filed.delete (h : Filed log c) {o : Stub} {key : String}
    (hkey : Family.attempts.tag.toList.isPrefixOf key.toList = false) :
    Filed log (c.delete o key) where
  fits := by
    intro o' p hp
    unfold Cloud.delete at hp
    by_cases ho : o' = o
    · subst ho
      rw [Function.update_self] at hp
      exact h.fits o' p (List.mem_of_mem_filter hp)
    · rw [Function.update_of_ne ho] at hp
      exact h.fits o' p hp
  logged := by
    intro t ep id
    rw [← h.logged t ep id]
    unfold Cloud.delete
    by_cases ho : endpointStub t ep = o
    · rw [← ho, Function.update_self, OMap.get_delete, if_neg (ne_attemptsKey hkey id)]
    · rw [Function.update_of_ne ho]

/-- What every call but `appendAttempt` does. -/
def Files : DoOp → Prop
  | .put o key v => Fits o key v ∧ Family.attempts.tag.toList.isPrefixOf key.toList = false
  | .delete _ key => Family.attempts.tag.toList.isPrefixOf key.toList = false
  | _ => True

theorem tag_not_prefix {f : Family} {r : Slot} (h : r.family ≠ f) :
    f.tag.toList.isPrefixOf r.key.toList = false :=
  Bool.eq_false_iff.mpr fun htag => h ((Slot.tag_prefix_iff f r).mp htag)

theorem files_put {r : Slot} {v : Val} (hendpoint : r.family = .endpoint → ∃ e, v = .endpoint e)
    (hmessage : r.family = .message →
      ∃ m, v = .message m ∧ r.stub = endpointStub m.tenant m.endpointId)
    (hattempts : r.family ≠ .attempts) : Files (.put r.stub r.key v) :=
  ⟨⟨fun htag => hendpoint ((Slot.tag_prefix_iff _ r).mp htag),
    fun htag => hmessage ((Slot.tag_prefix_iff _ r).mp htag)⟩, tag_not_prefix hattempts⟩

theorem files_of_writes {op : StoreOp} {r : Slot} {v : Val} (h : Writes op r v)
    (hop : ∀ a, op ≠ .appendAttempt a) : Files (.put r.stub r.key v) := by
  cases h with
  | appendAttempt a log => exact absurd rfl (hop a)
  | createEndpoint _ _ _ _ e =>
    exact files_put (fun _ => ⟨e, rfl⟩) (by simp [Slot.family]) (by simp [Slot.family])
  | updateEndpoint _ _ _ e =>
    exact files_put (fun _ => ⟨e, rfl⟩) (by simp [Slot.family]) (by simp [Slot.family])
  | rotateSecret _ _ _ e =>
    exact files_put (fun _ => ⟨e, rfl⟩) (by simp [Slot.family]) (by simp [Slot.family])
  | putMessage m =>
    exact files_put (by simp [Slot.family]) (fun _ => ⟨m, rfl, rfl⟩) (by simp [Slot.family])
  | _ => exact files_put (by simp [Slot.family]) (by simp [Slot.family]) (by simp [Slot.family])

theorem Filed.exec (h : Filed log c) (op : DoOp) (hop : Files op) :
    Filed log (cloudExec op c).2 := by
  cases op with
  | get o key => exact h
  | put o key v => exact h.put hop.1 hop.2
  | delete o key => exact h.delete hop
  | list o keyStart => exact h

theorem Filed.perform (h : Filed log c) {op : StoreOp} (hop : ∀ a, op ≠ .appendAttempt a) :
    Filed log ((DoStateStore.perform op).run cloudExec c).2 := by
  have hwithin : Within Files (DoStateStore.perform op) := within_perform_of {
    get := fun _ _ _ => trivial
    list := fun _ _ _ => trivial
    put := fun _ _ hw => files_of_writes hw hop
    delete := fun id => tag_not_prefix (r := .endpoint (storeTenant op) id) (by simp [Slot.family]) }
  exact hwithin.run_keeps (I := Filed log) (fun op c hop h => h.exec op hop) h

theorem attempts_logged (h : Filed log c) (t ep id : String) :
    Prog.Ends cloudExec (EndpointDurableObject.attempts (endpointStub t ep) id)
      (fun found c' => found = attemptsAt log t ep id ∧ c' = c) c := by
  refine Prog.Ends.bind (P := fun found c' => found.getD [] = attemptsAt log t ep id ∧ c' = c) ?_ ?_
  · refine Prog.ends_call (r := (c (endpointStub t ep)).get ("att:" ++ id)) rfl ?_
    rw [h.logged]
    cases attemptsAt log t ep id with
    | nil => exact Prog.ends_pure ⟨rfl, rfl⟩
    | cons a rest => exact Prog.ends_pure ⟨rfl, rfl⟩
  · intro found c' ⟨hfound, hc'⟩
    exact Prog.ends_pure ⟨hfound, hc'⟩

theorem attemptsAt_concat (log : List Attempt) (a : Attempt) (t ep id : String) :
    attemptsAt (log ++ [a]) t ep id = if a.tenant = t ∧ a.endpointId = ep ∧ a.messageId = id
      then attemptsAt log t ep id ++ [a] else attemptsAt log t ep id := by
  unfold attemptsAt
  rw [List.filter_append]
  split
  · rename_i hat
    simp [hat]
  · rename_i hat
    simp [hat]

theorem Filed.append (h : Filed log c) (a : Attempt) :
    Filed (log ++ [a]) ((DoStateStore.perform (.appendAttempt a)).run cloudExec c).2 := by
  obtain ⟨found, c', hrun, rfl, rfl⟩ := attempts_logged h a.tenant a.endpointId a.messageId
  have hput : ((DoStateStore.perform (.appendAttempt a)).run cloudExec c').2 =
      c'.put (endpointStub a.tenant a.endpointId) ("att:" ++ a.messageId)
        (.attempts (attemptsAt log a.tenant a.endpointId a.messageId ++ [a])) := by
    show ((EndpointDurableObject.attempts _ _ >>= fun log => _).run cloudExec c').2 = _
    rw [Prog.run_bind, hrun]
    rfl
  rw [hput]
  refine ⟨?_, ?_⟩
  · intro o p hp
    unfold Cloud.put at hp
    by_cases ho : o = endpointStub a.tenant a.endpointId
    · subst ho
      rw [Function.update_self] at hp
      obtain rfl | hp := OMap.mem_setList hp
      · have hother : ∀ {f : Family}, f ≠ .attempts →
            f.tag.toList.isPrefixOf ("att:" ++ a.messageId).toList = false :=
          fun hf => tag_not_prefix (r := .attempts a.tenant a.endpointId a.messageId) (Ne.symm hf)
        refine ⟨fun htag => ?_, fun htag => ?_⟩
        · exact absurd (htag.symm.trans (hother (by decide))) (by decide)
        · exact absurd (htag.symm.trans (hother (by decide))) (by decide)
      · exact h.fits _ p hp
    · rw [Function.update_of_ne ho] at hp
      exact h.fits o p hp
  · intro t ep id
    rw [attemptsAt_concat]
    unfold Cloud.put
    split
    · rename_i hat
      obtain ⟨rfl, rfl, rfl⟩ := hat
      rw [Function.update_self, OMap.get_set_self]
      cases attemptsAt log a.tenant a.endpointId a.messageId <;> rfl
    · rename_i hat
      rw [← h.logged t ep id]
      by_cases ho : endpointStub t ep = endpointStub a.tenant a.endpointId
      · obtain ⟨rfl, rfl⟩ := endpointDoName_injective (Stub.endpoint.inj ho)
        rw [Function.update_self, OMap.get_set_of_ne]
        intro hkey
        have hid : a.messageId = id := by simpa using hkey
        exact hat ⟨rfl, rfl, hid⟩
      · rw [Function.update_of_ne ho]

theorem Filed.step {s : Objects N} (h : Filed log s.cloud) (call : Call N) :
    Filed (log ++ (appended? call).toList) (s.step fmt call).cloud := by
  cases call with
  | store op =>
    by_cases happend : ∃ a, op = .appendAttempt a
    · obtain ⟨a, rfl⟩ := happend
      exact h.append a
    · have hnone : appended? (.store op : Call N) = none := by
        unfold appended?
        split
        · rename_i heq
          cases heq
          exact absurd ⟨_, rfl⟩ happend
        · rfl
      rw [hnone, Option.toList_none, List.append_nil]
      exact h.perform fun a heq => happend ⟨a, heq⟩
  | scheduleRetry m atMs =>
    rw [show appended? (.scheduleRetry m atMs : Call N) = none from rfl, Option.toList_none,
      List.append_nil]
    have hsched : ∀ f : Family,
        f.tag.toList.isPrefixOf (schedKey fmt atMs m.messageId).toList = false := by
      intro f
      have hkey : (schedKey fmt atMs m.messageId).toList =
          's' :: 'c' :: 'h' :: 'e' :: 'd' :: ':' ::
            ((fmt.text atMs).toList ++ ':' :: m.messageId.toList) := by
        simp [schedKey]
      rw [hkey]
      cases f <;> rfl
    exact h.put ⟨fun htag => absurd (htag.symm.trans (hsched _)) (by decide),
      fun htag => absurd (htag.symm.trans (hsched _)) (by decide)⟩ (hsched _)

/-- Before any call. -/
def Objects.fresh : Objects N where
  cloud := .empty
  alarms := fun _ => none

theorem Filed.run {s : Objects N} (h : Filed log s.cloud) (calls : List (Call N)) :
    Filed (log ++ calls.filterMap appended?) (calls.foldl (Objects.step fmt) s).cloud := by
  induction calls generalizing s log with
  | nil =>
    rw [List.filterMap_nil, List.append_nil]
    exact h
  | cons call calls ih =>
    rw [← List.singleton_append, List.filterMap_append, ← List.append_assoc, List.foldl_append]
    have hcall : [call].filterMap appended? = (appended? call).toList := by
      cases hc : appended? call <;> simp [hc]
    rw [hcall]
    exact ih (h.step call)

/-- What any calls have filed. -/
theorem filed_after (fmt : NumberText N) (calls : List (Call N)) :
    Filed (calls.filterMap appended?) (calls.foldl (Objects.step fmt) .fresh).cloud :=
  filed_empty.run (s := .fresh) calls

end Filed

/-! ## The listing -/

section Listing
variable {log : List Attempt} {c : Cloud}

theorem Filed.endpoints_read (h : Filed log c) (o : Stub) :
    ∀ p ∈ c.list o Family.endpoint.tag, ∃ e, Val.endpoint? p.2 = some e := by
  intro p hp
  obtain ⟨hmem, htag⟩ := List.mem_filter.mp ((List.mem_insertionSort _).mp hp)
  obtain ⟨e, he⟩ := (h.fits o p hmem).1 htag
  exact ⟨e, by rw [he]; rfl⟩

theorem Filed.messages_read (h : Filed log c) (o : Stub) :
    ∀ p ∈ c.list o Family.message.tag,
      ∃ m, Val.message? p.2 = some m ∧ o = endpointStub m.tenant m.endpointId := by
  intro p hp
  obtain ⟨hmem, htag⟩ := List.mem_filter.mp ((List.mem_insertionSort _).mp hp)
  obtain ⟨m, hm, ho⟩ := (h.fits o p hmem).2 htag
  exact ⟨m, by rw [hm]; rfl, ho⟩

/-- The attempts at a message, of all attempts. -/
def attemptsFor (log : List Attempt) (m : Message) : List Attempt :=
  attemptsAt log m.tenant m.endpointId m.messageId

/-- One endpoint's object answers with the newest of its matching rows. -/
theorem Filed.answers (h : Filed log c) (q : DeliveryQuery) (endpointId : String) :
    Prog.Ends cloudExec
      (EndpointDurableObject.listDeliveries (endpointStub q.tenant endpointId) q)
      (fun out c' => out = (answered c q endpointId).map (fun m => (m, attemptsFor log m)) ∧
        c' = c) c := by
  have hread := h.messages_read (endpointStub q.tenant endpointId)
  refine listDeliveries_answered (fun p hp => ?_) (fun m hm => ?_)
  · obtain ⟨m, hm, -⟩ := hread p hp
    exact ⟨m, hm⟩
  · obtain ⟨p, hp, hpick⟩ := List.mem_filterMap.mp hm
    obtain ⟨m', hm', ho⟩ := hread p hp
    obtain rfl : m' = m := Option.some.inj (hm'.symm.trans hpick)
    obtain ⟨htenant, hendpoint⟩ := endpointDoName_injective (Stub.endpoint.inj ho)
    unfold attemptsFor
    rw [htenant, hendpoint, ← htenant]
    exact attempts_logged h q.tenant m'.endpointId m'.messageId

/-- The stored rows of the tenant's endpoints that match a query, one endpoint after the
other, each with all attempts at its message. -/
def matchingRows (log : List Attempt) (c : Cloud) (q : DeliveryQuery) :
    List (Message × List Attempt) :=
  (c.values Val.endpoint? (tenantStub q.tenant) .endpoint).flatMap fun e =>
    ((c.values Val.message? (endpointStub q.tenant e.endpointId) .message).filter q.passes).map
      fun m => (m, attemptsFor log m)

/-- Newest first; of equally new rows the one that came first stays first. -/
def newestFirst (rows : List (Message × List Attempt)) : List (Message × List Attempt) :=
  rows.insertionSort fun a b => b.1.createdAt ≤ a.1.createdAt

def firstRows {α : Type} (limit : Option Nat) (rows : List α) : List α :=
  match limit with
  | none => rows
  | some n => rows.take n

theorem newest_limited {q : DeliveryQuery} {limit : Option Nat}
    (hlimit : q.limit = limit.map fun n => (n : ℚ)) {α : Type} (createdAt : α → Time)
    (rows : List α) : q.newest createdAt rows =
      firstRows limit (rows.insertionSort fun a b => createdAt b ≤ createdAt a) := by
  unfold DeliveryQuery.newest DeliveryQuery.kept
  rw [hlimit]
  cases limit with
  | none =>
    refine List.take_of_length_le ?_
    rw [List.length_insertionSort]
    exact le_refl _
  | some n => simp [firstRows]

/-- Cutting each part to the limit before the merge loses nothing. -/
theorem firstRows_merged (limit : Option Nat) (parts : List (List (Message × List Attempt))) :
    firstRows limit (newestFirst (parts.flatMap fun l => firstRows limit (newestFirst l))) =
      firstRows limit (newestFirst parts.flatten) := by
  cases limit with
  | none => exact sort_flatMap (fun row : Message × List Attempt => row.1.createdAt) parts
  | some n => exact take_sort_flatMap (fun row : Message × List Attempt => row.1.createdAt) parts n

theorem Filed.listing (h : Filed log c) {q : DeliveryQuery}
    (hwide : tenantWide q.endpointId = true) {limit : Option Nat}
    (hlimit : q.limit = limit.map fun n => (n : ℚ)) :
    Prog.Ends cloudExec (DoStateStore.listDeliveries q)
      (fun rows c' => rows = firstRows limit (newestFirst (matchingRows log c q)) ∧ c' = c) c := by
  unfold DoStateStore.listDeliveries
  dsimp only
  rw [if_neg (not_not.mpr (of_decide_eq_true hwide))]
  refine (storageList_ends (h.endpoints_read (tenantStub q.tenant))).bind ?_
  intro endpoints c' ⟨hendpoints, hc'⟩
  subst hc'
  refine (fanOut_ends (h.answers q) endpoints).bind ?_
  intro rows c'' ⟨hrows, hc''⟩
  refine Prog.ends_pure ⟨?_, hc''⟩
  have hparts : rows = (endpoints.map fun e =>
      ((c'.values Val.message? (endpointStub q.tenant e.endpointId) .message).filter
        q.passes).map fun m => (m, attemptsFor log m)).flatMap
          fun l => firstRows limit (newestFirst l) := by
    rw [hrows, List.flatMap_map]
    refine List.flatMap_congr fun e _ => ?_
    unfold answered newestFirst
    rw [← newest_map q (fun m => (m, attemptsFor log m)) (fun row => row.1.createdAt),
      newest_limited hlimit]
  rw [newest_limited hlimit]
  show firstRows limit (newestFirst rows) = _
  rw [hparts, firstRows_merged, ← List.flatMap_def, hendpoints]
  rfl

end Listing

/-- **A limited listing over the tenant is the beginning of the whole one**, after any calls:
the first rows of the stable newest-first sort of all matching rows of the tenant's
endpoints, although each object has sorted and cut its own, and each with all its
attempts. -/
theorem tenant_listing_newest {N : Type} [LinearOrder N] (fmt : NumberText N)
    (calls : List (Call N)) (q : DeliveryQuery) (hwide : tenantWide q.endpointId = true)
    (limit : Option Nat) (hlimit : q.limit = limit.map fun n => (n : ℚ)) :
    ((DoStateStore.perform (.listDeliveries q)).run cloudExec
        (calls.foldl (Objects.step fmt) .fresh).cloud).1 =
      .ok (firstRows limit (newestFirst (matchingRows (calls.filterMap appended?)
        (calls.foldl (Objects.step fmt) .fresh).cloud q))) := by
  obtain ⟨rows, c, hrun, hrows, -⟩ := (filed_after fmt calls).listing hwide hlimit
  show ((DoStateStore.listDeliveries q).run cloudExec _).1 = _
  rw [hrun, hrows]

/-- A message of `endpointId`, created at `createdAt`. -/
def createdMessage (endpointId messageId : String) (createdAt : Time) : Message :=
  { messageFor messageId with endpointId := endpointId, createdAt := createdAt }

/-- Two endpoints with two messages each, as old as one another's. -/
def twoByTwo : List (Call Nat) :=
  [.store (.createEndpoint anyEvent "ep_1" "s" 0), .store (.createEndpoint anyEvent "ep_2" "s" 0),
    .store (.putMessage (createdMessage "ep_2" "msg_d" 5)),
    .store (.putMessage (createdMessage "ep_2" "msg_c" 9)),
    .store (.putMessage (createdMessage "ep_1" "msg_b" 9)),
    .store (.putMessage (createdMessage "ep_1" "msg_a" 5)),
    .store (.appendAttempt (attemptOf (createdMessage "ep_1" "msg_b" 9) (.code 200) 0 "" 9 .delivered))]

def threeOfAcme : DeliveryQuery := { allDeliveries with limit := some 3 }

/-- Ties within an object are in the order of keys, ties between objects in the order of
endpoints. -/
theorem twoByTwo_listed :
    ((DoStateStore.perform (.listDeliveries threeOfAcme)).run cloudExec
        (twoByTwo.foldl (Objects.step decimal) .fresh).cloud).1.toOption.map
      (fun rows : List (Message × List Attempt) =>
        rows.map fun row => (row.1.messageId, row.2.length)) =
      some [("msg_b", 1), ("msg_c", 0), ("msg_a", 0)] := by
  rw [tenant_listing_newest decimal twoByTwo threeOfAcme rfl (some 3) rfl]
  decide +kernel

end Anyhook.Cloudflare.Store
