import Stainless.Crypto.DecimalText
import Stainless.Poker.Dealer
import Stainless.Runtime.Json

/-!
# Hands as JSON

The writers and the readers of a hand.  Amounts, heights and times are decimal texts, enumerators are
their names, and what is absent is null.
-/

open Stainless.Runtime Stainless.Crypto

namespace Stainless.Poker

/-! ## 1. Values -/

abbrev ParseM := Except Exit

def ParseM.requireConfig (condition : Prop) [Decidable condition] (message : String) : ParseM Unit :=
  if condition then return else throw (.exception (.config message))

def BettingAction.text : BettingAction → String
  | checkCall => "CheckCall"
  | betRaise => "BetRaise"
  | fold => "Fold"
  | unknown => "Unknown"

def TimeoutPhase.text : TimeoutPhase → String
  | commit => "Commit"
  | reveal => "Reveal"
  | betting => "Betting"
  | «show» => "Show"
  | unknown => "Unknown"

/-- The enumerator of a name. -/
def parseEnum {α : Type} (type : String) (all : List α) (text : α → String) (source : String) :
    ParseM α :=
  match all.find? fun value ↦ text value = source with
  | some value => return value
  | none => throw (.exception (.enum ("invalid " ++ type ++ " value `" ++ source ++ "`")))

def HandPhase.parse : String → ParseM HandPhase :=
  parseEnum "HandPhase" [.unknown, .commit, .reveal, .betting, .show, .continue, .settling]
    HandPhase.text

def BettingAction.parse : String → ParseM BettingAction :=
  parseEnum "BettingAction" [.checkCall, .betRaise, .fold, .unknown] BettingAction.text

def TimeoutPhase.parse : String → ParseM TimeoutPhase :=
  parseEnum "TimeoutPhase" [.commit, .reveal, .betting, .show, .unknown] TimeoutPhase.text

/-- A decimal text of at most 128 bits. -/
def amount (value : Json) : ParseM Nat := do
  ParseM.requireConfig (value.isString = true) "u64/u128 JSON values must be decimal strings"
  match parseDecimalU128 value.toStringValue with
  | .ok number => return number.value
  | .error (.thrown message) => throw (.exception (.config message))
  | .error .arithmetic => throw .stopped

def integer (value : Json) : ParseM Nat := do
  let exact ← amount value
  ParseM.requireConfig (exact ≤ 18446744073709551615) "integer exceeds the u64 range"
  return exact

/-- The elements that a range loop visits. -/
def elements (values : Json) : ParseM (List Json) :=
  match values.arraySnapshot with
  | some elements => return elements
  | none => throw (.exception (.json "range iteration requires an array"))

/-- A loop that reads the elements of an array one by one. -/
def parseEach {α : Type} (parse : Json → ParseM α) (values : Json) : ParseM (List α) := do
  (← elements values).mapM parse

/-- `if (value != null) { result = parse(value); }` -/
def parseOptional {α : Type} (parse : Json → ParseM α) (value : Json) : ParseM (Option α) :=
  if value.isNull then return none else some <$> parse value

/-- The value of an optional, or null. -/
def optionalJson {α : Type} (json : α → Json) (value : Option α) : Json :=
  match value with
  | some value => json value
  | none => .null

def text (value : Json) : ParseM String := return value.toStringValue

def decimalJson (value : Nat) : Json := .string (decimal value)

def parseStrings : Json → ParseM (List String) := parseEach text

def stringsJson (values : List String) : Json := .array (values.map .string)

/-! ## 2. Values read back -/

theorem amount_decimal {n : Nat} (h : n ≤ maximum) : amount (decimalJson n) = .ok n := by
  have hparse : parseDecimalU128 (decimal n) = .ok ⟨n, h⟩ := parse_decimal ⟨n, h⟩
  unfold amount decimalJson
  rw [Json.toStringValue_string, hparse]
  rfl

theorem integer_decimal {n : Nat} (h : n < 2 ^ 64) : integer (decimalJson n) = .ok n := by
  unfold integer
  rw [amount_decimal (Nat.le_trans (Nat.le_of_lt h) (by decide))]
  show (ParseM.requireConfig _ _ >>= fun _ ↦ _ : ParseM Nat) = _
  unfold ParseM.requireConfig
  rw [if_pos (by omega)]
  rfl

theorem mapM_map {α β : Type} {parse : Json → ParseM β} {json : α → Json} {f : α → β}
    {values : List α} (h : ∀ a ∈ values, parse (json a) = .ok (f a)) :
    (values.map json).mapM parse = .ok (values.map f) := by
  induction values with
  | nil => rfl
  | cons a values ih =>
      rw [List.map_cons, List.mapM_cons, h a List.mem_cons_self,
        ih fun b hb ↦ h b (List.mem_cons_of_mem _ hb)]
      rfl

theorem parseEach_map {α β : Type} {parse : Json → ParseM β} {json : α → Json} {f : α → β}
    {values : List α} (h : ∀ a ∈ values, parse (json a) = .ok (f a)) :
    parseEach parse (.array (values.map json)) = .ok (values.map f) :=
  mapM_map h

theorem parseEach_same {α : Type} {parse : Json → ParseM α} {json : α → Json} {values : List α}
    (h : ∀ a ∈ values, parse (json a) = .ok a) :
    parseEach parse (.array (values.map json)) = .ok values := by
  rw [parseEach_map (f := id) h, List.map_id]

theorem parseOptional_json {α β : Type} {parse : Json → ParseM β} {json : α → Json} {f : α → β}
    {value : Option α} (hnull : ∀ a, (json a).isNull = false)
    (h : ∀ a, value = some a → parse (json a) = .ok (f a)) :
    parseOptional parse (optionalJson json value) = .ok (value.map f) := by
  cases value with
  | none => rfl
  | some a =>
      unfold parseOptional optionalJson
      dsimp only
      rw [hnull a, h a rfl]
      rfl

theorem parseOptional_same {α : Type} {parse : Json → ParseM α} {json : α → Json}
    {value : Option α} (hnull : ∀ a, (json a).isNull = false)
    (h : ∀ a, value = some a → parse (json a) = .ok a) :
    parseOptional parse (optionalJson json value) = .ok value := by
  rw [parseOptional_json (f := id) hnull h, Option.map_id]
  rfl

theorem text_string (value : String) : text (.string value) = .ok value := by
  unfold text
  rw [Json.toStringValue_string]
  rfl

theorem parseStrings_json (values : List String) : parseStrings (stringsJson values) = .ok values :=
  parseEach_same fun value _ ↦ text_string value

theorem HandPhase.parse_text (phase : HandPhase) : HandPhase.parse phase.text = .ok phase := by
  cases phase <;> rfl

theorem BettingAction.parse_text (action : BettingAction) :
    BettingAction.parse action.text = .ok action := by
  cases action <;> rfl

theorem TimeoutPhase.parse_text (phase : TimeoutPhase) : TimeoutPhase.parse phase.text = .ok phase := by
  cases phase <;> rfl

/-! ## 3. Numbers -/

/-- What JavaScript makes of a text that should be a number is the runtime's business. -/
class NumberText where
  read : String → Int

variable [NumberText]

def u32 (value : Json) : ParseM Nat := return value.toU32 NumberText.read

def u64 (value : Json) : ParseM Nat := return value.toU64 NumberText.read

/-- `u64(value) != 0` -/
def flag (value : Json) : ParseM Bool := return decide (value.toU64 NumberText.read ≠ 0)

def parseU64Values : Json → ParseM (List Nat) := parseEach u64

/-- `u32(value)` of a number, which drops the upper bits. -/
def narrow (value : Nat) : Nat := value % 2 ^ 32

def u64ValuesJson (values : List Nat) : Json := .array (values.map fun value ↦ .number (narrow value))

/-! ## 4. Records -/

def Rank.parse (value : Json) : ParseM Rank := do
  return { category := ← u64 (value.index 0), kickers := ← parseU64Values (value.index 1) }

def Rank.json (rank : Rank) : Json :=
  .array [.number (narrow rank.category), u64ValuesJson rank.kickers]

def Show.parse (value : Json) : ParseM Show := do
  return {
    pocketSeed := ← text (value.field "pocket_seed")
    hand := ← parseU64Values (value.field "hand")
    rank := ← Rank.parse (value.field "rank") }

def Show.json (value : Show) : Json :=
  .object [("pocket_seed", .string value.pocketSeed), ("hand", u64ValuesJson value.hand),
    ("rank", value.rank.json)]

def Player.parse (value : Json) : ParseM Player := do
  return {
    address := ← text (value.field "address")
    publicKey := ← text (value.field "public_key")
    stack := ← amount (value.field "stack")
    bet := ← amount (value.field "bet")
    folded := ← flag (value.field "folded")
    commitments := (← parseOptional parseStrings (value.field "commitments")).getD []
    commitSignature := ← parseOptional text (value.field "commit_signature")
    reveals := ← parseEach (parseOptional text) (value.field "reveals")
    «show» := ← parseOptional Show.parse (value.field "show")
    payout := ← parseOptional amount (value.field "payout")
    continuing := ← parseOptional flag (value.field "continuing") }

def Player.json (player : Player) (redactShow : Bool) : Json :=
  .object [
    ("address", .string player.address),
    ("public_key", .string player.publicKey),
    ("stack", decimalJson player.stack),
    ("bet", decimalJson player.bet),
    ("folded", .bool player.folded),
    ("commitments", if player.commitments.length ≠ 0 then stringsJson player.commitments else .null),
    ("commit_signature", optionalJson .string player.commitSignature),
    ("reveals", .array (player.reveals.map (optionalJson .string))),
    ("show", if redactShow then .null else optionalJson Show.json player.show),
    ("payout", optionalJson decimalJson player.payout),
    ("continuing", optionalJson .bool player.continuing)]

def BettingEntry.parse (value : Json) : ParseM BettingEntry := do
  let action ← BettingAction.parse (value.index 1).toStringValue
  ParseM.requireConfig (action ≠ .unknown) "unknown betting action"
  return {
    player := ← u32 (value.index 0)
    action
    cumulativeBet := ← amount (value.index 2)
    signature := ← text (value.index 3) }

def BettingEntry.json (entry : BettingEntry) : Json :=
  .array [.number entry.player, .string entry.action.text, decimalJson entry.cumulativeBet,
    .string entry.signature]

def TimeoutEntry.parse (value : Json) : ParseM TimeoutEntry := do
  let phase ← TimeoutPhase.parse (value.index 1).toStringValue
  ParseM.requireConfig (phase ≠ .unknown) "unknown timeout phase"
  return {
    player := ← u32 (value.index 0)
    phase
    round := ← integer (value.index 2)
    epoch := ← integer (value.index 3) }

def TimeoutEntry.json (entry : TimeoutEntry) : Json :=
  .array [.number entry.player, .string entry.phase.text, decimalJson entry.round,
    decimalJson entry.epoch]

def ShowEntry.parse (value : Json) : ParseM ShowEntry := do
  return {
    player := ← u32 (value.index 0)
    pocketSeed := ← text (value.index 1)
    hand := ← parseU64Values (value.index 2) }

def ShowEntry.json (entry : ShowEntry) : Json :=
  .array [.number entry.player, .string entry.pocketSeed, u64ValuesJson entry.hand]

def ContinuationEntry.parse (value : Json) : ParseM ContinuationEntry := do
  return { player := ← u32 (value.index 0), signature := ← text (value.index 1) }

def ContinuationEntry.json (entry : ContinuationEntry) : Json :=
  .array [.number entry.player, .string entry.signature]

/-! ## 5. Hands -/

def Hand.parse (value : Json) : ParseM Hand := do
  let table ← text (value.field "table")
  let handId ← integer (value.field "hand_id")
  let startHeight ← integer (value.field "start_height")
  let refundHeight ← integer (value.field "refund_height")
  let smallBlind ← amount (value.field "small_blind")
  let playerTimeout ← integer (value.field "player_timeout")
  let rakeBps ← u32 (value.field "rake_bps")
  let minRake ← amount (value.field "min_rake")
  let phase ← HandPhase.parse (value.field "phase").toStringValue
  ParseM.requireConfig (phase ≠ .unknown) "unknown hand phase"
  let round ← integer (value.field "round")
  let epoch ← integer (value.field "epoch")
  let deadline ← integer (value.field "deadline")
  let checkpoint ← text (value.field "checkpoint")
  let players ← parseEach Player.parse (value.field "players")
  let sources ← parseStrings (value.field "sources")
  let board ← parseOptional parseU64Values (value.field "board")
  let betting ← parseEach (parseEach (parseEach BettingEntry.parse)) (value.field "betting")
  let timeouts ← parseEach TimeoutEntry.parse (value.field "timeouts")
  let shows ← parseEach ShowEntry.parse (value.field "shows")
  let continuations ← parseEach ContinuationEntry.parse (value.field "continuations")
  let dealerRake ← amount (value.field "dealer_rake")
  let settlementTx ← parseOptional text (value.field "settlement_tx")
  let settlementHeight ← parseOptional integer (value.field "settlement_height")
  return {
    table, handId, startHeight, refundHeight, smallBlind, playerTimeout, rakeBps, minRake, phase
    round, epoch, deadline, checkpoint, players, sources, board, betting, timeouts, shows
    continuations, dealerRake, settlementTx, settlementHeight }

def Hand.json (hand : Hand) (redactShow : Bool) : Json :=
  .object [
    ("table", .string hand.table),
    ("hand_id", decimalJson hand.handId),
    ("start_height", decimalJson hand.startHeight),
    ("refund_height", decimalJson hand.refundHeight),
    ("small_blind", decimalJson hand.smallBlind),
    ("player_timeout", decimalJson hand.playerTimeout),
    ("rake_bps", .number hand.rakeBps),
    ("min_rake", decimalJson hand.minRake),
    ("phase", .string hand.phase.text),
    ("round", decimalJson hand.round),
    ("epoch", decimalJson hand.epoch),
    ("deadline", decimalJson hand.deadline),
    ("checkpoint", .string hand.checkpoint),
    ("players", .array (hand.players.map (·.json redactShow))),
    ("sources", stringsJson hand.sources),
    ("board", optionalJson u64ValuesJson hand.board),
    ("betting", .array (hand.betting.map fun round ↦
      .array (round.map fun epoch ↦ .array (epoch.map BettingEntry.json)))),
    ("timeouts", .array (hand.timeouts.map TimeoutEntry.json)),
    ("shows", .array (hand.shows.map ShowEntry.json)),
    ("continuations", .array (hand.continuations.map ContinuationEntry.json)),
    ("dealer_rake", decimalJson hand.dealerRake),
    ("settlement_tx", optionalJson .string hand.settlementTx),
    ("settlement_height", optionalJson decimalJson hand.settlementHeight)]

def Hand.parseAll : Json → ParseM (List Hand) := parseEach Hand.parse

def Hand.jsonAll (hands : List Hand) : Json := .array (hands.map (·.json false))

/-! ## 6. What is read back -/

def Rank.narrowed (rank : Rank) : Rank := ⟨narrow rank.category, rank.kickers.map narrow⟩

def Show.narrowed (value : Show) : Show :=
  { value with hand := value.hand.map narrow, rank := value.rank.narrowed }

def Player.narrowed (player : Player) : Player :=
  { player with «show» := player.show.map Show.narrowed }

def ShowEntry.narrowed (entry : ShowEntry) : ShowEntry :=
  { entry with hand := entry.hand.map narrow }

/-- The hand with its cards, ranks and selections narrowed. -/
def Hand.narrowed (hand : Hand) : Hand :=
  { hand with
    players := hand.players.map Player.narrowed
    board := hand.board.map (List.map narrow)
    shows := hand.shows.map ShowEntry.narrowed }

/-- The amounts are of their types. -/
structure Player.InRange (player : Player) : Prop where
  stack : player.stack ≤ maximum
  bet : player.bet ≤ maximum
  payout : ∀ payout, player.payout = some payout → payout ≤ maximum

structure BettingEntry.InRange (entry : BettingEntry) : Prop where
  player : entry.player < 2 ^ 32
  cumulativeBet : entry.cumulativeBet ≤ maximum
  known : entry.action ≠ .unknown

structure TimeoutEntry.InRange (entry : TimeoutEntry) : Prop where
  player : entry.player < 2 ^ 32
  round : entry.round < 2 ^ 64
  epoch : entry.epoch < 2 ^ 64
  known : entry.phase ≠ .unknown

/-- The numbers of a hand are of their types, and its enumerators are known. -/
structure Hand.InRange (hand : Hand) : Prop where
  handId : hand.handId < 2 ^ 64
  startHeight : hand.startHeight < 2 ^ 64
  refundHeight : hand.refundHeight < 2 ^ 64
  smallBlind : hand.smallBlind ≤ maximum
  playerTimeout : hand.playerTimeout < 2 ^ 64
  rakeBps : hand.rakeBps < 2 ^ 32
  minRake : hand.minRake ≤ maximum
  phase : hand.phase ≠ .unknown
  round : hand.round < 2 ^ 64
  epoch : hand.epoch < 2 ^ 64
  deadline : hand.deadline < 2 ^ 64
  players : ∀ player ∈ hand.players, player.InRange
  betting : ∀ round ∈ hand.betting, ∀ epoch ∈ round, ∀ entry ∈ epoch, entry.InRange
  timeouts : ∀ entry ∈ hand.timeouts, entry.InRange
  shows : ∀ entry ∈ hand.shows, entry.player < 2 ^ 32
  continuations : ∀ entry ∈ hand.continuations, entry.player < 2 ^ 32
  dealerRake : hand.dealerRake ≤ maximum
  settlementHeight : ∀ height, hand.settlementHeight = some height → height < 2 ^ 64

theorem u32_number {n : Nat} (h : n < 2 ^ 32) : u32 (.number n) = .ok n := by
  unfold u32
  rw [Json.toU32_number _ h]
  rfl

theorem u64_narrow (n : Nat) : u64 (.number (narrow n)) = .ok (narrow n) := by
  have hnarrow : narrow n < 2 ^ 64 := Nat.lt_trans (Nat.mod_lt n (by decide)) (by decide)
  unfold u64
  rw [Json.toU64_number _ hnarrow]
  rfl

theorem flag_bool (value : Bool) : flag (.bool value) = .ok value := by
  unfold flag
  rw [Json.toU64_bool]
  rfl

theorem parseU64Values_json (values : List Nat) :
    parseU64Values (u64ValuesJson values) = .ok (values.map narrow) :=
  parseEach_map fun value _ ↦ u64_narrow value

theorem Rank.parse_json (rank : Rank) : Rank.parse rank.json = .ok rank.narrowed := by
  have hcategory := u64_narrow rank.category
  have hkickers := parseU64Values_json rank.kickers
  unfold Rank.parse Rank.json
  show (do
    let category ← u64 (.number (narrow rank.category))
    let kickers ← parseU64Values (u64ValuesJson rank.kickers)
    return { category, kickers } : ParseM Rank) = _
  rw [hcategory, hkickers]
  rfl

theorem Show.parse_json (value : Show) : Show.parse value.json = .ok value.narrowed := by
  unfold Show.parse Show.json
  simp only [Json.field_cons, String.reduceEq, if_true, if_false, text_string, parseU64Values_json,
    Rank.parse_json]
  rfl

theorem Player.parse_json {player : Player} (h : player.InRange) :
    Player.parse (player.json false) = .ok player.narrowed := by
  have hcommitments : parseOptional parseStrings
      (if player.commitments.length ≠ 0 then stringsJson player.commitments else .null) =
        .ok (if player.commitments.length ≠ 0 then some player.commitments else none) := by
    by_cases hnone : player.commitments.length ≠ 0
    · rw [if_pos hnone, if_pos hnone]
      show some <$> parseStrings (stringsJson player.commitments) = _
      rw [parseStrings_json]
      rfl
    · rw [if_neg hnone, if_neg hnone]
      rfl
  have hsignature : parseOptional text (optionalJson .string player.commitSignature) =
      .ok player.commitSignature :=
    parseOptional_same (fun _ ↦ rfl) fun value _ ↦ text_string value
  have hreveals : parseEach (parseOptional text) (.array (player.reveals.map (optionalJson .string))) =
      .ok player.reveals :=
    parseEach_same fun value _ ↦ parseOptional_same (fun _ ↦ rfl) fun value _ ↦ text_string value
  have hshow : parseOptional Show.parse (optionalJson Show.json player.show) =
      .ok (player.show.map Show.narrowed) :=
    parseOptional_json (fun _ ↦ rfl) fun value _ ↦ Show.parse_json value
  have hpayout : parseOptional amount (optionalJson decimalJson player.payout) = .ok player.payout :=
    parseOptional_same (fun _ ↦ rfl) fun payout hpayout ↦ amount_decimal (h.payout payout hpayout)
  have hcontinuing : parseOptional flag (optionalJson .bool player.continuing) =
      .ok player.continuing :=
    parseOptional_same (fun _ ↦ rfl) fun value _ ↦ flag_bool value
  unfold Player.parse Player.json
  simp only [Json.field_cons, String.reduceEq, if_true, if_false, Bool.false_eq_true, text_string,
    amount_decimal h.stack, amount_decimal h.bet, flag_bool, hcommitments, hsignature, hreveals,
    hshow, hpayout, hcontinuing]
  show Except.ok _ = Except.ok player.narrowed
  have hsame : (if player.commitments.length ≠ 0 then some player.commitments else none).getD [] =
      player.commitments := by
    cases player.commitments with
    | nil => rfl
    | cons commitment commitments => rfl
  rw [hsame]
  rfl

theorem BettingEntry.parse_json {entry : BettingEntry} (h : entry.InRange) :
    BettingEntry.parse entry.json = .ok entry := by
  unfold BettingEntry.parse BettingEntry.json
  simp only [Json.index, List.getD_cons_zero, List.getD_cons_succ, Json.toStringValue_string,
    BettingAction.parse_text, u32_number h.player, amount_decimal h.cumulativeBet, text_string]
  show (ParseM.requireConfig _ _ >>= fun _ ↦ _ : ParseM BettingEntry) = _
  unfold ParseM.requireConfig
  rw [if_pos h.known]
  rfl

theorem TimeoutEntry.parse_json {entry : TimeoutEntry} (h : entry.InRange) :
    TimeoutEntry.parse entry.json = .ok entry := by
  unfold TimeoutEntry.parse TimeoutEntry.json
  simp only [Json.index, List.getD_cons_zero, List.getD_cons_succ, Json.toStringValue_string,
    TimeoutPhase.parse_text, u32_number h.player, integer_decimal h.round, integer_decimal h.epoch]
  show (ParseM.requireConfig _ _ >>= fun _ ↦ _ : ParseM TimeoutEntry) = _
  unfold ParseM.requireConfig
  rw [if_pos h.known]
  rfl

theorem ShowEntry.parse_json {entry : ShowEntry} (h : entry.player < 2 ^ 32) :
    ShowEntry.parse entry.json = .ok entry.narrowed := by
  unfold ShowEntry.parse ShowEntry.json
  simp only [Json.index, List.getD_cons_zero, List.getD_cons_succ, u32_number h, text_string,
    parseU64Values_json]
  rfl

theorem ContinuationEntry.parse_json {entry : ContinuationEntry} (h : entry.player < 2 ^ 32) :
    ContinuationEntry.parse entry.json = .ok entry := by
  unfold ContinuationEntry.parse ContinuationEntry.json
  simp only [Json.index, List.getD_cons_zero, List.getD_cons_succ, u32_number h, text_string]
  rfl

/-- What is read back of a hand in range is the hand with its lists of numbers narrowed. -/
theorem Hand.parse_json {hand : Hand} (h : hand.InRange) :
    Hand.parse (hand.json false) = .ok hand.narrowed := by
  have hplayers : parseEach Player.parse (.array (hand.players.map (·.json false))) =
      .ok (hand.players.map Player.narrowed) :=
    parseEach_map fun player hmem ↦ Player.parse_json (h.players player hmem)
  have hboard : parseOptional parseU64Values (optionalJson u64ValuesJson hand.board) =
      .ok (hand.board.map (List.map narrow)) :=
    parseOptional_json (fun _ ↦ rfl) fun values _ ↦ parseU64Values_json values
  have hbetting : parseEach (parseEach (parseEach BettingEntry.parse)) (.array (hand.betting.map
      fun round ↦ .array (round.map fun epoch ↦ .array (epoch.map BettingEntry.json)))) =
        .ok hand.betting :=
    parseEach_same fun round hround ↦ parseEach_same fun epoch hepoch ↦
      parseEach_same fun entry hentry ↦
        BettingEntry.parse_json (h.betting round hround epoch hepoch entry hentry)
  have htimeouts : parseEach TimeoutEntry.parse (.array (hand.timeouts.map TimeoutEntry.json)) =
      .ok hand.timeouts :=
    parseEach_same fun entry hmem ↦ TimeoutEntry.parse_json (h.timeouts entry hmem)
  have hshows : parseEach ShowEntry.parse (.array (hand.shows.map ShowEntry.json)) =
      .ok (hand.shows.map ShowEntry.narrowed) :=
    parseEach_map fun entry hmem ↦ ShowEntry.parse_json (h.shows entry hmem)
  have hcontinuations : parseEach ContinuationEntry.parse
      (.array (hand.continuations.map ContinuationEntry.json)) = .ok hand.continuations :=
    parseEach_same fun entry hmem ↦ ContinuationEntry.parse_json (h.continuations entry hmem)
  have hsettlementTx : parseOptional text (optionalJson .string hand.settlementTx) =
      .ok hand.settlementTx :=
    parseOptional_same (fun _ ↦ rfl) fun value _ ↦ text_string value
  have hsettlementHeight : parseOptional integer (optionalJson decimalJson hand.settlementHeight) =
      .ok hand.settlementHeight :=
    parseOptional_same (fun _ ↦ rfl) fun height hheight ↦
      integer_decimal (h.settlementHeight height hheight)
  unfold Hand.parse Hand.json
  simp only [Json.field_cons, String.reduceEq, if_true, if_false, text_string,
    integer_decimal h.handId, integer_decimal h.startHeight, integer_decimal h.refundHeight,
    amount_decimal h.smallBlind, integer_decimal h.playerTimeout, u32_number h.rakeBps,
    amount_decimal h.minRake, Json.toStringValue_string, HandPhase.parse_text,
    integer_decimal h.round, integer_decimal h.epoch, integer_decimal h.deadline, hplayers,
    parseStrings_json, hboard, hbetting, htimeouts, hshows, hcontinuations,
    amount_decimal h.dealerRake, hsettlementTx, hsettlementHeight]
  show (ParseM.requireConfig _ _ >>= fun _ ↦ _ : ParseM Hand) = _
  unfold ParseM.requireConfig
  rw [if_pos h.phase]
  rfl

/-! ## 7. Hands that reload exactly -/

/-- Every value fits in a `u32`. -/
def Small (values : List Nat) : Prop := ∀ value ∈ values, value < 2 ^ 32

instance (values : List Nat) : Decidable (Small values) :=
  inferInstanceAs (Decidable (∀ value ∈ values, value < 2 ^ 32))

structure Show.Small (value : Show) : Prop where
  hand : Poker.Small value.hand
  category : value.rank.category < 2 ^ 32
  kickers : Poker.Small value.rank.kickers

/-- The numbers that are written as JSON numbers fit in a `u32`. -/
structure Hand.Small (hand : Hand) : Prop where
  players : ∀ player ∈ hand.players, ∀ value, player.show = some value → value.Small
  board : ∀ values, hand.board = some values → Poker.Small values
  shows : ∀ entry ∈ hand.shows, Poker.Small entry.hand

omit [NumberText]

theorem narrow_eq_iff (n : Nat) : narrow n = n ↔ n < 2 ^ 32 := by
  unfold narrow
  omega

theorem map_eq_self_iff {α : Type} {f : α → α} {l : List α} : l.map f = l ↔ ∀ a ∈ l, f a = a := by
  induction l with
  | nil => simp
  | cons a l ih => rw [List.map_cons, List.cons.injEq, ih, List.forall_mem_cons]

theorem option_map_eq_self_iff {α : Type} {f : α → α} {o : Option α} :
    o.map f = o ↔ ∀ a, o = some a → f a = a := by
  cases o with
  | none => simp
  | some a => simp

theorem small_iff (values : List Nat) : values.map narrow = values ↔ Small values := by
  rw [map_eq_self_iff]
  exact forall_congr' fun value ↦ imp_congr_right fun _ ↦ narrow_eq_iff value

theorem Show.narrowed_eq_iff (value : Show) : value.narrowed = value ↔ value.Small := by
  have hfields : value.narrowed = value ↔ value.hand.map narrow = value.hand ∧
      narrow value.rank.category = value.rank.category ∧
        value.rank.kickers.map narrow = value.rank.kickers := by
    cases value with
    | mk pocketSeed hand rank =>
        cases rank
        simp [Show.narrowed, Rank.narrowed]
  rw [hfields, small_iff, small_iff, narrow_eq_iff]
  exact ⟨fun h ↦ ⟨h.1, h.2.1, h.2.2⟩, fun h ↦ ⟨h.hand, h.category, h.kickers⟩⟩

theorem Player.narrowed_eq_iff (player : Player) :
    player.narrowed = player ↔ ∀ value, player.show = some value → value.Small := by
  have hfields : player.narrowed = player ↔ player.show.map Show.narrowed = player.show := by
    cases player
    simp [Player.narrowed]
  rw [hfields, option_map_eq_self_iff]
  exact forall_congr' fun value ↦ imp_congr_right fun _ ↦ value.narrowed_eq_iff

theorem ShowEntry.narrowed_eq_iff (entry : ShowEntry) : entry.narrowed = entry ↔ Small entry.hand := by
  rw [← small_iff]
  cases entry
  simp [ShowEntry.narrowed]

theorem Hand.narrowed_eq_iff (hand : Hand) : hand.narrowed = hand ↔ hand.Small := by
  have hfields : hand.narrowed = hand ↔ hand.players.map Player.narrowed = hand.players ∧
      hand.board.map (List.map narrow) = hand.board ∧
        hand.shows.map ShowEntry.narrowed = hand.shows := by
    cases hand
    simp [Hand.narrowed]
  rw [hfields, map_eq_self_iff, option_map_eq_self_iff, map_eq_self_iff]
  have hplayers := forall_congr' fun player ↦
    imp_congr_right fun _ : player ∈ hand.players ↦ player.narrowed_eq_iff
  have hboard := forall_congr' fun values ↦
    imp_congr_right fun _ : hand.board = some values ↦ small_iff values
  have hshows := forall_congr' fun entry ↦
    imp_congr_right fun _ : entry ∈ hand.shows ↦ entry.narrowed_eq_iff
  rw [hplayers, hboard, hshows]
  exact ⟨fun h ↦ ⟨h.1, h.2.1, h.2.2⟩, fun h ↦ ⟨h.players, h.board, h.shows⟩⟩

/-- A stored hand reloads exactly when its cards, ranks and selections fit in a `u32`. -/
theorem stored_hand_reloads_iff [NumberText] (hand : Hand) (h : hand.InRange) :
    Hand.parse (hand.json false) = .ok hand ↔ hand.Small := by
  rw [Hand.parse_json h, Except.ok.injEq]
  exact hand.narrowed_eq_iff

/-! ## 8. Cards of 33 bits -/

/-- A hand in which one player showed and the other one let the time pass. -/
def playedHand : Hand :=
  { table := "T"
    phase := .continue
    checkpoint := "c"
    sources := ["s", "s", "s", "s"]
    players := [
      { address := "alice"
        stack := 2 ^ 64
        bet := 10
        reveals := [some "r", none]
        «show» := some ⟨"seed", [0, 1, 2, 3, 4], ⟨2, [12, 5]⟩⟩
        payout := some 20
        continuing := some true },
      { address := "bob", stack := 10, bet := 10, folded := true, payout := some 0 }]
    board := some [3, 17, 51]
    betting := [[[⟨0, .betRaise, 10, "a"⟩, ⟨1, .checkCall, 10, "b"⟩]], [], [], []]
    timeouts := [⟨1, .show, 4, 0⟩]
    shows := [⟨0, "seed", [0, 1, 2, 3, 4]⟩]
    continuations := [⟨0, "a"⟩] }

theorem playedHand_players : ∀ player ∈ playedHand.players, player.InRange := by
  have hpaid {player : Player} {payout : Nat} (hsome : player.payout = some payout)
      (hle : payout ≤ maximum) : ∀ paid, player.payout = some paid → paid ≤ maximum := by
    intro paid hpaid
    exact Option.some.inj (hsome.symm.trans hpaid) ▸ hle
  intro player hmem
  rcases List.mem_cons.mp hmem with halice | hmem
  · subst halice
    exact ⟨by decide, by decide, hpaid rfl (by decide)⟩
  · rw [List.mem_singleton.mp hmem]
    exact ⟨by decide, by decide, hpaid rfl (by decide)⟩

theorem playedHand_inRange : playedHand.InRange where
  handId := by decide
  startHeight := by decide
  refundHeight := by decide
  smallBlind := by decide
  playerTimeout := by decide
  rakeBps := by decide
  minRake := by decide
  phase := by decide
  round := by decide
  epoch := by decide
  deadline := by decide
  players := playedHand_players
  betting := by
    simp only [playedHand, List.forall_mem_cons, List.not_mem_nil, false_implies, implies_true, and_true]
    exact ⟨⟨by decide, by decide, by decide⟩, ⟨by decide, by decide, by decide⟩⟩
  timeouts entry hmem := by
    rw [List.mem_singleton.mp hmem]
    exact ⟨by decide, by decide, by decide, by decide⟩
  shows := by decide
  continuations := by decide
  dealerRake := by decide
  settlementHeight _ h := nomatch h

theorem playedHand_reloads :
    have : NumberText := ⟨fun _ ↦ 0⟩
    Hand.parse (playedHand.json false) = .ok playedHand := by
  have : NumberText := ⟨fun _ ↦ 0⟩
  refine (stored_hand_reloads_iff _ playedHand_inRange).mpr ⟨?_, ?_, by decide⟩
  · intro player hmem value hshow
    rcases List.mem_cons.mp hmem with halice | hmem
    · subst halice
      rw [← Option.some.inj hshow]
      exact ⟨by decide, by decide, by decide⟩
    · rw [List.mem_singleton.mp hmem] at hshow
      exact nomatch hshow
  · intro values hvalues
    cases hvalues
    decide

/-- A hand with a board and nothing else. -/
def boardHand (cards : List Nat) : Hand := { phase := .show, round := 4, board := some cards }

theorem boardHand_inRange (cards : List Nat) : (boardHand cards).InRange := by
  constructor <;> simp [boardHand]

/-- A card of 33 bits comes back as its lower 32 bits. -/
theorem boardHand_loses : ¬∀ [NumberText] (hand : Hand), hand.InRange →
    Hand.parse (hand.json false) = .ok hand := by
  intro h
  have : NumberText := ⟨fun _ ↦ 0⟩
  have hsame := h (boardHand [4294967296]) (boardHand_inRange _)
  rw [Hand.parse_json (boardHand_inRange _), Except.ok.injEq, Hand.narrowed_eq_iff] at hsame
  exact absurd (hsame.board _ rfl) (by decide)

end Stainless.Poker
