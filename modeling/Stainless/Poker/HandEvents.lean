import Stainless.Reasoning.Runs
import Stainless.Poker.StoredHands

/-!
# The stored hands and the events of the hands

A tick changes the hands in memory; at its end it saves them and returns an event for each change.  Both
are lost when the tick throws in between.
-/

open Reasoning Stainless.Runtime Stainless.Crypto

namespace Stainless.Poker

/-! ## 1. What is known of the hands -/

/-- The hand at each table. -/
abbrev HandsByTable := String → Option Hand

def handsByTable (hands : List Hand) : HandsByTable :=
  fun table ↦ hands.find? fun hand ↦ hand.table = table

/-- What a listener knows after an event. -/
def notice (known : HandsByTable) (event : HandEvent) : HandsByTable :=
  fun table ↦
    if table = event.table then
      if event.kind = .handState then event.hand else none
    else known table

/-- The last snapshot that `save_hands` committed. -/
def lastSaved (d : Dealer) : Json := (Store.lastMark d.handsStore.marks).2.getD (Hand.jsonAll [])

/-- There is at most one hand for a table. -/
def OneHandEach (hands : List Hand) : Prop := (hands.map Hand.table).Nodup

theorem OneHandEach.split {front rest : List Hand} {hand : Hand}
    (h : OneHandEach (front ++ hand :: rest)) :
    (∀ x ∈ front, x.table ≠ hand.table) ∧ (∀ x ∈ rest, x.table ≠ hand.table) ∧
      OneHandEach (front ++ rest) := by
  unfold OneHandEach at *
  rw [List.map_append, List.map_cons, List.nodup_append] at h
  have ⟨hfront, hrest, hdisjoint⟩ := h
  rw [List.nodup_cons] at hrest
  refine ⟨fun x hx ↦ ?_, fun x hx hxt ↦ ?_, ?_⟩
  · exact hdisjoint _ (List.mem_map_of_mem hx) _ (List.mem_cons_self ..)
  · exact hrest.1 (hxt ▸ List.mem_map_of_mem hx)
  · rw [List.map_append, List.nodup_append]
    exact ⟨hfront, hrest.2, fun a ha b hb ↦ hdisjoint a ha b (List.mem_cons_of_mem _ hb)⟩

/-- A hand starts at a table that has none. -/
theorem OneHandEach.started {hands : List Hand} {hand : Hand} (h : OneHandEach hands)
    (hother : ∀ x ∈ hands, x.table ≠ hand.table) : OneHandEach (hands ++ [hand]) := by
  unfold OneHandEach
  rw [List.map_append, List.nodup_append]
  refine ⟨h, by simp, fun a ha b hb ↦ ?_⟩
  have ⟨x, hx, hxa⟩ := List.mem_map.mp ha
  rw [List.mem_singleton.mp hb, ← hxa]
  exact hother x hx

theorem find?_other {hands : List Hand} {table : String} (h : ∀ x ∈ hands, x.table ≠ table) :
    (hands.find? fun hand ↦ hand.table = table) = none := by
  rw [List.find?_eq_none]
  intro x hx
  simpa using h x hx

/-- The hand at its table, the other ones at theirs. -/
theorem handsByTable_split {front rest : List Hand} {hand : Hand}
    (hfront : ∀ x ∈ front, x.table ≠ hand.table) (table : String) :
    handsByTable (front ++ hand :: rest) table =
      if table = hand.table then some hand else handsByTable (front ++ rest) table := by
  unfold handsByTable
  rw [List.find?_append, List.find?_cons, List.find?_append]
  by_cases htable : table = hand.table
  · subst htable
    rw [if_pos rfl, find?_other hfront]
    simp
  · rw [if_neg htable]
    have hne : decide (hand.table = table) = false := decide_eq_false fun h ↦ htable h.symm
    rw [hne]

theorem handsByTable_gone {front rest : List Hand} {hand : Hand}
    (h : OneHandEach (front ++ hand :: rest)) :
    handsByTable (front ++ rest) hand.table = none := by
  have ⟨hfront, hrest, _⟩ := h.split
  apply find?_other
  intro x hx
  rcases List.mem_append.mp hx with hx | hx
  · exact hfront x hx
  · exact hrest x hx

theorem getElem?_split {hands : List Hand} {i : Nat} {hand : Hand} (h : hands[i]? = some hand) :
    ∃ front rest, hands = front ++ hand :: rest ∧ front.length = i := by
  have ⟨hi, hhand⟩ := List.getElem?_eq_some_iff.mp h
  refine ⟨hands.take i, hands.drop (i + 1), ?_, List.length_take_of_le (by omega)⟩
  rw [← hhand, List.getElem_cons_drop, List.take_append_drop]

/-! ### The three changes of the hands -/

theorem notice_started {hands : List Hand} {hand : Hand} {known : HandsByTable}
    (hknown : known = handsByTable hands) (hnew : ∀ x ∈ hands, x.table ≠ hand.table) :
    notice known (makeHandStateEvent hand) = handsByTable (hands ++ [hand]) := by
  funext table
  rw [handsByTable_split hnew, List.append_nil, hknown]
  rfl

theorem notice_dropped {front rest : List Hand} {hand : Hand} {known : HandsByTable}
    {event : HandEvent} (hknown : known = handsByTable (front ++ hand :: rest))
    (hone : OneHandEach (front ++ hand :: rest)) (hkind : event.kind ≠ .handState)
    (htable : event.table = hand.table) :
    notice known event = handsByTable (front ++ rest) := by
  funext table
  unfold notice
  rw [if_neg hkind, htable, hknown, handsByTable_split hone.split.1]
  by_cases h : table = hand.table
  · rw [if_pos h, h, handsByTable_gone hone]
  · rw [if_neg h, if_neg h]

theorem notice_advanced {front rest : List Hand} {before after : Hand} {known : HandsByTable}
    (hknown : known = handsByTable (front ++ before :: rest))
    (hone : OneHandEach (front ++ before :: rest)) (htable : after.table = before.table) :
    notice known (makeHandStateEvent after) = handsByTable (front ++ after :: rest) := by
  have hfront : ∀ x ∈ front, x.table ≠ after.table := htable ▸ hone.split.1
  funext table
  rw [handsByTable_split hfront]
  unfold notice
  change (if table = after.table then some after else known table) = _
  rw [hknown, handsByTable_split hone.split.1, htable]
  by_cases h : table = before.table
  · rw [if_pos h, if_pos h]
  · rw [if_neg h, if_neg h, if_neg h]

/-! ## 2. A step that does not advance the hand -/

/-- A step that returns false has not changed the hand. -/
def WaitsUnchanged (s : HandState) (r : Except Exit Bool) (s' : HandState) : Prop :=
  r = .ok false → s'.hand = s.hand

theorem waitsUnchanged_error {s : HandState} (e : Exit) (t : HandState) :
    WaitsUnchanged s (.error e) t :=
  fun h ↦ nomatch h

theorem waitsUnchanged_true {s : HandState} (t : HandState) : WaitsUnchanged s (.ok true) t :=
  fun h ↦ nomatch h

theorem waits_phase {s t : HandState} {c : Prop} [Decidable c] {m : HandM Unit} :
    After s (if c then return false else do
      set t
      m
      return true) (WaitsUnchanged s) := by
  apply After.ite
  · exact fun _ ↦ After.pure fun _ ↦ rfl
  · exact fun _ ↦ After.skip (fun _ _ ↦
      After.skip (fun _ u ↦ After.pure (waitsUnchanged_true u)) waitsUnchanged_error)
      waitsUnchanged_error

theorem waits_advanceReveal (native : Native) (now : Nat) (s : HandState) :
    After s (advanceReveal native now) (WaitsUnchanged s) := by
  apply After.read
  apply After.ite
  · exact fun _ ↦ After.pure fun _ ↦ rfl
  · intro _
    apply After.skip _ waitsUnchanged_error
    intro _ _
    apply After.skip _ waitsUnchanged_error
    intro _ _
    apply After.skip _ waitsUnchanged_error
    intro _ _
    exact After.skip (fun _ u ↦ After.pure (waitsUnchanged_true u)) waitsUnchanged_error

theorem waits_advanceBetting (native : Native) (now : Nat) (s : HandState) :
    After s (advanceBetting native now) (WaitsUnchanged s) := by
  apply After.read
  apply After.ite
  · exact fun _ ↦ After.pure fun _ ↦ rfl
  · intro _
    apply After.skip _ waitsUnchanged_error
    intro _ _
    apply After.skip _ waitsUnchanged_error
    intro _ _
    apply After.skip _ waitsUnchanged_error
    intro _ _
    exact After.skip (fun _ u ↦ After.pure (waitsUnchanged_true u)) waitsUnchanged_error

theorem Counted.hand {s t : HandState} (h : Counted s t) : t.hand = s.hand := by
  have hframe : Frame fun s t : HandState ↦ t.hand = s.hand :=
    ⟨fun _ ↦ rfl, fun _ _ _ h h' ↦ h'.trans h, fun _ ↦ rfl⟩
  exact hframe.of_counted h

theorem waits_advanceShow (env : Env) (native : Native) (now : Nat) (s : HandState) :
    After s (advanceShow env native now) (WaitsUnchanged s) := by
  apply After.read
  apply After.ite
  · exact fun _ ↦ After.skip (fun _ u ↦ After.pure (waitsUnchanged_true u)) waitsUnchanged_error
  · intro _
    apply After.bind
    apply (Steps.foldlM Counted.frame.refl Counted.frame.trans
      (fun _ _ ↦ counted_showSubmitted env native _ _) _ _ s).mono
    intro r t hst
    cases r with
    | error e => exact waitsUnchanged_error e t
    | ok ready =>
        apply After.ite
        · exact fun _ ↦ After.pure fun _ ↦ hst.hand
        · intro _
          apply After.skip _ waitsUnchanged_error
          intro _ _
          exact After.skip (fun _ u ↦ After.pure (waitsUnchanged_true u)) waitsUnchanged_error

theorem waits_retrySettlement (env : Env) (chain : ChainState) (s : HandState) :
    After s (retrySettlement env chain) (WaitsUnchanged s) := by
  apply After.read
  apply After.ite
  · exact fun _ ↦ After.pure fun _ ↦ rfl
  · exact fun _ ↦ After.skip (fun _ u ↦ After.pure (waitsUnchanged_true u)) waitsUnchanged_error

theorem waits_advanceHand (env : Env) (native : Native) (chain : ChainState) (now : Nat)
    (s : HandState) : After s (advanceHand env native chain now) (WaitsUnchanged s) := by
  apply After.read
  cases s.hand.phase with
  | commit => exact After.read waits_phase
  | reveal => exact waits_advanceReveal native now s
  | betting => exact waits_advanceBetting native now s
  | «show» => exact waits_advanceShow env native now s
  | «continue» => exact After.read waits_phase
  | settling => exact waits_retrySettlement env chain s
  | unknown => exact After.throw (waitsUnchanged_error _ s)

/-! ## 3. One tick -/

/-- How far a tick that started in `d₀` is: what a listener knows once it has the events so far is what
is in memory. -/
structure Tracks (d₀ : Dealer) (known : HandsByTable) (acc : Bool × List HandEvent) (d : Dealer) :
    Prop where
  known : acc.2.foldl notice known = handsByTable d.hands
  one : OneHandEach d.hands
  storable : ∀ hand ∈ d.hands, hand.Storable
  store : d.handsStore = d₀.handsStore
  unchanged : acc.1 = false → d.hands = d₀.hands ∧ acc.2 = []

variable {d₀ d : Dealer} {known : HandsByTable} {acc : Bool × List HandEvent}

/-- The hands changed and an event says how. -/
theorem Tracks.event {d' : Dealer} {event : HandEvent} {changed : Bool} (h : Tracks d₀ known acc d)
    (hchanged : changed = true)
    (hnotice : notice (handsByTable d.hands) event = handsByTable d'.hands)
    (hone : OneHandEach d'.hands) (hstorable : ∀ hand ∈ d'.hands, hand.Storable)
    (hstore : d'.handsStore = d.handsStore) :
    Tracks d₀ known (changed, acc.2 ++ [event]) d' where
  known := by
    rw [List.foldl_append, h.known]
    exact hnotice
  one := hone
  storable := hstorable
  store := hstore.trans h.store
  unchanged hfalse := nomatch hchanged.symm.trans hfalse

theorem Tracks.of_eq {d' : Dealer} (h : Tracks d₀ known acc d) (hhands : d'.hands = d.hands)
    (hstore : d'.handsStore = d.handsStore) : Tracks d₀ known acc d' :=
  ⟨hhands ▸ h.known, hhands ▸ h.one, hhands ▸ h.storable, hstore.trans h.store, hhands ▸ h.unchanged⟩

/-- How a part of a tick ends. -/
def TracksAfter (d₀ : Dealer) (known : HandsByTable) (r : Except Exit (Bool × List HandEvent))
    (d : Dealer) : Prop :=
  match r with
  | .ok acc => Tracks d₀ known acc d
  | .error _ => d.handsStore = d₀.handsStore

theorem findHandIndex_found {hands : List Hand} {table : String}
    (h : findHandIndex hands table ≠ hands.length) :
    ∃ hand, hands[findHandIndex hands table]? = some hand ∧ hand.table = table := by
  have hlt : findHandIndex hands table < hands.length :=
    Nat.lt_of_le_of_ne List.findIdx_le_length h
  refine ⟨hands[findHandIndex hands table], List.getElem?_eq_getElem hlt, ?_⟩
  exact of_decide_eq_true (List.findIdx_getElem (w := hlt))

theorem findHandIndex_none {hands : List Hand} {table : String}
    (h : findHandIndex hands table = hands.length) : ∀ x ∈ hands, x.table ≠ table := by
  intro x hx
  exact of_decide_eq_false (List.findIdx_eq_length.mp h x hx)

theorem endingEvent_spec {address : String} {status : TableStatus} {height : Nat} {hand : Hand}
    {event : HandEvent} (h : endingEvent address status height hand = some event) :
    event.kind ≠ .handState ∧ event.table = address := by
  unfold endingEvent at h
  dsimp only at h
  split at h
  · cases h
    refine ⟨?_, rfl⟩
    dsimp only
    split
    · decide
    · split
      · decide
      · decide
  · exact nomatch h

theorem reconcileTable_tracks (env : Env) (table : Table) (currentHeight now : Nat)
    (h : Tracks d₀ known acc d) :
    After d (reconcileTable env table currentHeight now) fun r d' ↦ match r with
      | .ok result => Tracks d₀ known (acc.1 || result.changed, acc.2 ++ result.event.toList) d'
      | .error _ => d'.handsStore = d₀.handsStore := by
  have hsame : Tracks d₀ known (acc.1 || false, acc.2 ++ []) d := by
    rwa [Bool.or_false, List.append_nil]
  apply after_reconcileTable
  · exact hsame
  -- the hand of a closed table, or one that is over, is dropped
  · intro status event _ _ hfound hending
    have ⟨hand, hhand, htable⟩ := findHandIndex_found hfound
    have ⟨front, rest, hsplit, hlength⟩ := getElem?_split hhand
    have ⟨hkind, hevent⟩ := endingEvent_spec hending
    have herase : d.hands.eraseIdx (findHandIndex d.hands table.address) = front ++ rest := by
      rw [← hlength, hsplit, List.eraseIdx_append_of_length_le (Nat.le_refl _), Nat.sub_self]
      rfl
    have hone : OneHandEach (front ++ hand :: rest) := hsplit ▸ h.one
    apply h.event (Bool.or_true _)
    · dsimp only
      rw [herase]
      exact notice_dropped (by rw [hsplit]) hone hkind (hevent.trans htable.symm)
    · dsimp only
      rw [herase]
      exact hone.split.2.2
    · exact fun x hx ↦ h.storable x (List.mem_of_mem_eraseIdx hx)
    · rfl
  · intro status e d₁ hstatus hthrown
    have hd₁ := ((startHand_spec env table status now d hstatus).error hthrown).1.dealer
    dsimp only
    rw [hd₁]
    exact h.store
  -- a new hand is started
  · intro status hand d₁ _ hstatus hnew _ hreturned
    have ⟨⟨hcounted, hspec⟩, hstored⟩ := ((startHand_spec env table status now d hstatus).onReturn
      (startHand_storable table status.handId now d)).ok hreturned
    have hd₁ := hcounted.dealer
    have hfresh := hspec hand rfl
    have hother : ∀ x ∈ d₁.hands, x.table ≠ hand.table := by
      rw [hd₁, hfresh.table]
      exact findHandIndex_none hnew
    have h₁ : Tracks d₀ known acc d₁ := h.of_eq (by rw [hd₁]) (by rw [hd₁])
    apply h₁.event (Bool.or_true _)
    · exact notice_started rfl hother
    · exact h₁.one.started hother
    · intro x hx
      rcases List.mem_append.mp hx with hx | hx
      · exact h₁.storable x hx
      · exact List.mem_singleton.mp hx ▸ hstored hand rfl
    · rfl

theorem reconcileStep_tracks (env : Env) (currentHeight now : Nat) (table : Table)
    (h : Tracks d₀ known acc d) :
    After d (reconcileStep env currentHeight now acc table) (TracksAfter d₀ known) := by
  apply After.bind
  apply (reconcileTable_tracks env table currentHeight now h).mono
  intro r d' hr
  cases r with
  | ok result => exact After.pure hr
  | error e => exact hr

theorem onHand_tracks {env : Env} (hnode : env.node.Small) (native : Native) (chain : ChainState)
    (now i : Nat) (h : Tracks d₀ known acc d) :
    After d (onHand i (advanceHand env native chain now)) fun r d' ↦ match r with
      | .ok true => Tracks d₀ known (true, acc.2 ++ [makeHandStateEvent (d'.hands.getD i {})]) d'
      | .ok false => Tracks d₀ known acc d'
      | .error _ => d'.handsStore = d₀.handsStore := by
  apply after_onHand
  · exact fun _ ↦ h
  · intro before hbefore
    have ⟨front, rest, hsplit, hlength⟩ := getElem?_split hbefore
    have hset (after : Hand) : d.hands.set i after = front ++ after :: rest := by
      rw [← hlength, hsplit, List.set_append_right _ _ (Nat.le_refl _), Nat.sub_self]
      rfl
    have hone : OneHandEach (front ++ before :: rest) := hsplit ▸ h.one
    apply (((HandState.keeps_advanceHand env native chain now _).and
      (waits_advanceHand env native chain now _)).and
        (storable_advanceHand hnode native chain now _)).mono
    intro r s hspec
    have ⟨⟨hkeeps, hwaits⟩, hstorable⟩ := hspec
    cases r with
    -- a call that throws has saved nothing, and its tick is no longer followed
    | error e => exact h.store
    | ok advanced =>
        have htable : s.hand.table = before.table := hkeeps.table
        have hhands (returned : Bool) : (d.stepped i before s returned).hands =
            front ++ s.hand :: rest := hset s.hand
        cases advanced with
        | false =>
            refine Tracks.of_eq h ?_ rfl
            change d.hands.set i s.hand = d.hands
            rw [hset, hwaits rfl, hsplit]
        | true =>
            refine Tracks.event h rfl ?_ ?_ ?_ rfl
            · rw [hhands, ← hlength, List.getD_eq_getElem?_getD,
                List.getElem?_append_right (Nat.le_refl _), Nat.sub_self]
              exact notice_advanced (congrArg handsByTable hsplit) hone htable
            · rw [hhands]
              unfold OneHandEach
              rw [List.map_append, List.map_cons, htable, ← List.map_cons, ← List.map_append]
              exact hone
            · intro x hx
              rcases List.mem_or_eq_of_mem_set hx with hx | hx
              · exact h.storable x hx
              · exact hx ▸ hstorable (h.storable before (List.mem_of_getElem? hbefore))

theorem advanceStep_tracks {env : Env} (hnode : env.node.Small) (native : Native) (chain : ChainState)
    (now i : Nat) (h : Tracks d₀ known acc d) :
    After d (advanceStep env native chain now acc i) (TracksAfter d₀ known) := by
  apply After.bind
  apply (onHand_tracks hnode native chain now i h).mono
  intro r d' hr
  cases r with
  | error e => exact hr
  | ok advanced =>
      cases advanced with
      | false => exact After.pure hr
      | true => exact After.pure hr

theorem foldlM_tracks {γ : Type} {f : Bool × List HandEvent → γ → DealerM (Bool × List HandEvent)}
    (hf : ∀ acc x d, Tracks d₀ known acc d → After d (f acc x) (TracksAfter d₀ known))
    (xs : List γ) (h : Tracks d₀ known acc d) :
    After d (xs.foldlM f acc) (TracksAfter d₀ known) :=
  (After.foldlM (I := fun _ acc d ↦ Tracks d₀ known acc d)
    (E := fun _ d ↦ d.handsStore = d₀.handsStore) h fun x _ acc d h ↦ hf acc x d h).mono
    fun r _ hr ↦ match r with
      | .ok _ => hr
      | .error _ => hr

/-! ### The snapshot -/

theorem saveHands_spec (env : Env) (hands : List Hand) (d : Dealer) :
    After d (saveHands env hands) fun r d' ↦
      d'.hands = d.hands ∧ match r with
        | .ok _ => lastSaved d' = Hand.jsonAll hands
        | .error _ => lastSaved d' = lastSaved d := by
  apply after_saveNext Slot.hands env Slot.hands_lawful
  · intro n
    refine ⟨rfl, ?_⟩
    change (Store.lastMark (_ ++ [_])).2.getD _ = Hand.jsonAll hands
    rw [Store.lastMark_append]
    rfl
  · intro e n store hfailed
    exact ⟨rfl, congrArg (fun marks ↦ (Store.lastMark marks).2.getD (Hand.jsonAll [])) hfailed.marks⟩

/-- What a tick leaves: its events tell everything that changed, and the hands are saved if any did. -/
def TickLeaves (d : Dealer) (r : Except Exit (List HandEvent)) (d' : Dealer) : Prop :=
  match r with
  | .ok events =>
      OneHandEach d'.hands ∧ (∀ hand ∈ d'.hands, hand.Storable) ∧
        events.foldl notice (handsByTable d.hands) = handsByTable d'.hands ∧
          (lastSaved d' = Hand.jsonAll d'.hands ∨ (d'.hands = d.hands ∧ lastSaved d' = lastSaved d))
  | .error _ => lastSaved d' = lastSaved d

theorem tickHands_spec {env : Env} (hnode : env.node.Small) (native : Native) (now : Nat) (d : Dealer)
    (hone : OneHandEach d.hands) (hstorable : ∀ hand ∈ d.hands, hand.Storable) :
    After d (tickHands env native now) (TickLeaves d) := by
  have hsaved {d' : Dealer} (h : d'.handsStore = d.handsStore) : lastSaved d' = lastSaved d := by
    rw [lastSaved, h, lastSaved]
  apply After.read
  apply After.ite
  · exact fun _ ↦ After.pure ⟨hone, hstorable, rfl, .inr ⟨rfl, rfl⟩⟩
  · intro _
    apply After.bind
    apply After.modify
    have hstart : Tracks d (handsByTable d.hands) (false, [])
        { d with journal := d.journal ++ [.handsTicked d.chain.height] } :=
      ⟨rfl, hone, hstorable, rfl, fun _ ↦ ⟨rfl, rfl⟩⟩
    apply After.bind
    apply (foldlM_tracks (fun _ table _ h ↦ reconcileStep_tracks env _ now table h) _ hstart).mono
    intro r d₁ h₁
    cases r with
    | error e => exact hsaved h₁
    | ok reconciled =>
        apply After.read
        apply After.bind
        apply (foldlM_tracks (fun _ i _ h ↦ advanceStep_tracks hnode native d.chain now i h) _ h₁).mono
        intro r d₂ h₂
        cases r with
        | error e => exact hsaved h₂
        | ok result =>
            -- where anything was changed the hands are saved, else the ones saved last are these
            apply After.bind
            apply After.ite
            · intro _
              apply After.read
              apply (saveHands_spec env d₂.hands d₂).mono
              intro r d₃ h₃
              cases r with
              | error e => exact h₃.2.trans (hsaved h₂.store)
              | ok _ =>
                  apply After.pure
                  refine ⟨h₃.1 ▸ h₂.one, h₃.1 ▸ h₂.storable, ?_, .inl (h₃.1.symm ▸ h₃.2)⟩
                  rw [h₃.1]
                  exact h₂.known
            · intro hunchanged
              apply After.pure
              apply After.pure
              have ⟨hhands, _⟩ := h₂.unchanged (Bool.not_eq_true _ ▸ hunchanged)
              exact ⟨h₂.one, h₂.storable, h₂.known, .inr ⟨hhands, hsaved h₂.store⟩⟩

/-! ## 4. Runs -/

/-- What a call of `tick_hands` finds: the chain, the submissions and the time. -/
structure TickCall where
  chain : ChainState
  inbox : OrderedMap String Submission
  now : Nat

def TickCall.enter (call : TickCall) (d : Dealer) : Dealer :=
  { d with chain := call.chain, inbox := call.inbox }

/-- The dealer and what a listener knows from the events that the ticks returned. -/
structure Notified where
  dealer : Dealer
  known : HandsByTable
  running : Bool

def Notified.tick (env : Env) (native : Native) (s : Notified) (call : TickCall) : Notified :=
  if s.running then
    match tickHands env native call.now (call.enter s.dealer) with
    | .ok events d => ⟨d, events.foldl notice s.known, true⟩
    | .error (.exception _) d => ⟨d, s.known, true⟩
    | .error .stopped d => ⟨d, s.known, false⟩
  else s

/-- A tick that throws has left the hands as they were. -/
def ThrowsUnchanged (env : Env) (native : Native) (s : Notified) (call : TickCall) : Prop :=
  ∀ e d, tickHands env native call.now (call.enter s.dealer) = .error (.exception e) d →
    d.hands = s.dealer.hands

/-- The store and the listener have the hands that are in memory. -/
structure Told (s : Notified) : Prop where
  one : OneHandEach s.dealer.hands
  storable : ∀ hand ∈ s.dealer.hands, hand.Storable
  saved : lastSaved s.dealer = Hand.jsonAll s.dealer.hands
  known : s.known = handsByTable s.dealer.hands

theorem tick_told {env : Env} {native : Native} {s : Notified} {call : TickCall}
    (hnode : env.node.Small) (h : s.running = true → Told s)
    (hthrows : ThrowsUnchanged env native s call) :
    (s.tick env native call).running = true → Told (s.tick env native call) := by
  unfold Notified.tick
  by_cases hrunning : s.running = true
  · have ⟨hone, hstorable, hsaved, hknown⟩ := h hrunning
    have hspec := tickHands_spec hnode native call.now (call.enter s.dealer) hone hstorable
    rw [if_pos hrunning]
    cases hr : tickHands env native call.now (call.enter s.dealer) with
    | ok events d =>
        have ⟨hone', hstorable', hevents, hsaved'⟩ := hspec.ok hr
        refine fun _ ↦ ⟨hone', hstorable', ?_, ?_⟩
        · rcases hsaved' with hsaved' | ⟨hhands, hsaved'⟩
          · exact hsaved'
          · exact hsaved'.trans (hsaved.trans (congrArg Hand.jsonAll hhands.symm))
        · change events.foldl notice s.known = handsByTable d.hands
          rw [hknown]
          exact hevents
    | error e d =>
        cases e with
        | stopped => exact fun h ↦ nomatch h
        | exception e =>
            have hhands := hthrows e d hr
            have hlast : lastSaved d = lastSaved s.dealer := hspec.error hr
            intro _
            constructor
            all_goals dsimp only
            · rw [hhands]
              exact hone
            · rw [hhands]
              exact hstorable
            · rw [hlast, hsaved, hhands]
            · rw [hknown, hhands]
  · rwa [if_neg hrunning]

/-- A snapshot holds the hands: it is their JSON, and what is read from it are these hands, whenever their
numbers are of their types. -/
structure HoldsHands (snapshot : Json) (hands : List Hand) : Prop where
  written : snapshot = Hand.jsonAll hands
  reloads : ∀ [NumberText], (∀ hand ∈ hands, hand.InRange) → Hand.parseAll snapshot = .ok hands

/-- In every run in which a tick that throws leaves the hands as they were, and the cards and ranks of the
node fit in a `u32`, the last snapshot that was committed holds the hands in memory, and the events
returned so far tell all of them. -/
theorem hands_saved_and_told (env : Env) (native : Native) (d : Dealer) (hnode : env.node.Small)
    (hone : OneHandEach d.hands) (hstorable : ∀ hand ∈ d.hands, hand.Storable)
    (hsaved : lastSaved d = Hand.jsonAll d.hands) (calls : List TickCall)
    (hthrows : Meets (Notified.tick env native) (ThrowsUnchanged env native)
      ⟨d, handsByTable d.hands, true⟩ calls) :
    let s := Reasoning.run (Notified.tick env native) ⟨d, handsByTable d.hands, true⟩ calls
    s.running = true →
      HoldsHands (lastSaved s.dealer) s.dealer.hands ∧ s.known = handsByTable s.dealer.hands := by
  intro s hrunning
  have htold : s.running = true → Told s := by
    apply hthrows.invariant (I := fun s ↦ s.running = true → Told s)
    · exact fun _ ↦ ⟨hone, hstorable, hsaved, rfl⟩
    · exact fun _ _ h hthrows ↦ tick_told hnode h hthrows
  have ⟨_, hstored, hlast, hknown⟩ := htold hrunning
  refine ⟨⟨hlast, fun hrange ↦ ?_⟩, hknown⟩
  rw [hlast]
  exact parseAll_jsonAll hstored hrange

/-! ## 5. A tick that throws between two tables -/

/-- The players of table "A" can be read, those of table "B" cannot. -/
def twoTablesNode : Node :=
  { Node.silent with
    activePlayer := fun _ table i ↦
      if table = "A" then .ok (if i = 0 then "alice" else "bob") else .error (.rust "timeout")
    playerInfo := fun _ _ address ↦ .ok ⟨address, "", 100⟩
    startCheckpoint := fun _ _ ↦ .ok "start" }

def twoTablesEnv : Env := ⟨twoTablesNode, fun _ ↦ .done, fun _ ↦ false, fun _ ↦ 0⟩

def openTable (address : String) : Table :=
  { address
    confirmed := true
    reachable := true
    status := some { tableOpen := true, startHeight := some 5, handId := 1, activeCount := 2 }
    config := some { smallBlind := 1, playerTimeout := 60 } }

/-- A tick with these tables. -/
def tickOf (tables : List Table) : TickCall :=
  ⟨{ height := 10, hash := "tip", synced := true, tables }, ∅, 0⟩

def noNative : Native := ⟨fun _ ↦ "", fun _ _ _ ↦ false⟩

/-- The hand at table "A" starts in a tick that throws at table "B"; the next tick returns normally and
neither saves the hand nor tells of it. -/
theorem hand_unsaved_after_tick : ¬∀ (env : Env) (native : Native) (d : Dealer)
    (calls : List TickCall) (call : TickCall), OneHandEach d.hands →
    lastSaved d = Hand.jsonAll d.hands →
    let s := Reasoning.run (Notified.tick env native) ⟨d, handsByTable d.hands, true⟩ calls
    returns (tickHands env native call.now) (call.enter s.dealer) = true →
      lastSaved (s.tick env native call).dealer =
        Hand.jsonAll (s.tick env native call).dealer.hands := by
  intro h
  have hsaved := h twoTablesEnv noNative .fresh [tickOf [openTable "A", openTable "B"]]
    (tickOf [openTable "A"]) List.nodup_nil rfl (by decide +kernel)
  have hcount := congrArg (fun snapshot ↦ snapshot.arraySnapshot.map List.length) hsaved
  revert hcount
  decide +kernel

theorem twoTablesNode_small : twoTablesNode.Small :=
  ⟨fun _ _ _ _ h ↦ (nomatch h), fun _ _ _ _ h ↦ (nomatch h)⟩

/-- Both tables answer. -/
theorem hands_saved_and_told_started :
    let s := Reasoning.run (Notified.tick twoTablesEnv noNative) ⟨.fresh, handsByTable [], true⟩
      [tickOf [openTable "A"], tickOf [openTable "A"]]
    s.running = true →
      HoldsHands (lastSaved s.dealer) s.dealer.hands ∧ s.known = handsByTable s.dealer.hands := by
  have hreturns {env : Env} {native : Native} {s : Notified} {call : TickCall}
      (h : returns (tickHands env native call.now) (call.enter s.dealer) = true) :
      ThrowsUnchanged env native s call := by
    intro e d hr
    rw [returns, hr] at h
    exact Bool.noConfusion h
  apply hands_saved_and_told twoTablesEnv noNative .fresh twoTablesNode_small List.nodup_nil
    (fun _ h ↦ nomatch h) rfl
  exact ⟨hreturns (by decide +kernel), hreturns (by decide +kernel), trivial⟩

end Stainless.Poker
