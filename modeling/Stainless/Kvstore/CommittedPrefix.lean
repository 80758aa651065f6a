import Stainless.Kvstore.Recover

/-!
# The committed prefix

What recovery makes of any two files: it accepts the longest readable log of records that lie inside
the data WAL, installs its committed part and cuts the files there.
-/

open Reasoning Stainless.Runtime

namespace Stainless.Kvstore

/-! ## 1. The accepted log -/

/-- The records lie at the start of the index WAL and inside the data WAL. -/
structure Accepted (dataLen : Nat) (content : Bytes) (log : List IndexRecord) : Prop where
  valid : ∀ r ∈ log, r.Valid
  stored : encodeLog log <+: content
  inside : ∀ r ∈ log, r.extent ≤ dataLen

def IndexRecord.fits (dataLen : Nat) (r : IndexRecord) : Bool := decide (r.extent ≤ dataLen)

theorem IndexRecord.fits_iff {dataLen : Nat} {r : IndexRecord} :
    r.fits dataLen = true ↔ r.extent ≤ dataLen := decide_eq_true_iff

/-- The readable records up to the first that reaches behind the data WAL. -/
def acceptedLog (dataLen : Nat) (content : Bytes) : List IndexRecord :=
  (decodeLog content).takeWhile (IndexRecord.fits dataLen)

theorem decodeRecord_ok {record : Bytes} {r : IndexRecord} (hframed : Framed record)
    (h : decodeRecord record = .ok r) : record = r.encode ∧ r.Valid := by
  rw [decodeRecord, bind_ok] at h
  obtain ⟨kind, -, h⟩ := h
  cases kind with
  | insert =>
      obtain ⟨i, hread, hr⟩ := bind_ok.mp h
      obtain rfl := Except.ok.inj hr
      rw [← InsertRecord.readChecked_false] at hread
      exact InsertRecord.readChecked_ok hframed hread
  | commit =>
      obtain ⟨m, hread, hr⟩ := bind_ok.mp h
      obtain rfl := Except.ok.inj hr
      exact CommitRecord.read_ok hframed hread

/-- A record that is read behind an encoded log continues it. -/
theorem stored_concat {content record : Bytes} {pre : List IndexRecord} {r : IndexRecord}
    {fileLen : Nat} (hp : encodeLog pre <+: content)
    (hread : recordAt content (logSize pre) fileLen = .ok record)
    (hr : decodeRecord record = .ok r) : encodeLog (pre ++ [r]) <+: content ∧ r.Valid := by
  obtain ⟨hframed, hslice, hwhole, -⟩ := recordAt_ok.mp hread
  obtain ⟨rfl, hv⟩ := decodeRecord_ok hframed hr
  refine ⟨?_, hv⟩
  obtain ⟨rest, rfl⟩ := hp
  rw [slice_append_right _ _ _ _ (by simp), encodeLog_length, Nat.sub_self] at hslice
  rw [encodeLog_append, encodeLog_cons, encodeLog_nil, List.append_nil, List.prefix_append_right_inj,
    ← hslice, slice, List.drop_zero]
  exact List.take_prefix _ _

theorem decodeFrom_stored {content : Bytes} (budget : Nat) (pre : List IndexRecord)
    (hp : encodeLog pre <+: content) :
    encodeLog (pre ++ decodeFrom content budget (logSize pre)) <+: content ∧
      ∀ r ∈ decodeFrom content budget (logSize pre), r.Valid := by
  induction budget generalizing pre with
  | zero => simpa [decodeFrom] using hp
  | succ budget ih =>
      rw [decodeFrom]
      cases h : recordAt content (logSize pre) content.length >>= decodeRecord with
      | error e => simpa using hp
      | ok r =>
          obtain ⟨record, hread, hr⟩ := bind_ok.mp h
          obtain ⟨hstored, hv⟩ := stored_concat hp hread hr
          have hrest := ih (pre ++ [r]) hstored
          rw [logSize_append, logSize_cons, logSize_nil, Nat.add_zero, List.append_assoc] at hrest
          exact ⟨hrest.1, List.forall_mem_cons.mpr ⟨hv, hrest.2⟩⟩

/-- Every log that lies at the offset is parsed. -/
theorem isPrefix_decodeFrom {content : Bytes} {budget : Nat} (pre : List IndexRecord)
    {log : List IndexRecord} (hv : ∀ r ∈ log, r.Valid) (hp : encodeLog (pre ++ log) <+: content)
    (hb : log.length ≤ budget) : log <+: decodeFrom content budget (logSize pre) := by
  induction log generalizing pre budget with
  | nil => exact List.nil_prefix
  | cons r log ih =>
      cases budget with
      | zero => simp at hb
      | succ budget =>
          have hr := hv r List.mem_cons_self
          rw [List.append_cons] at hp
          have hfirst := (encodeLog_isPrefix (List.prefix_append (pre ++ [r]) log)).trans hp
          have hlen := hfirst.length_le
          rw [encodeLog_length] at hlen
          have hrest := ih (pre ++ [r]) (fun s hs ↦ hv s (List.mem_cons_of_mem _ hs)) hp
            (Nat.le_of_succ_le_succ hb)
          rw [logSize_append, logSize_cons, logSize_nil, Nat.add_zero] at hrest
          rw [decodeFrom, recordAt_encode hr hfirst hlen, ok_bind, decodeRecord_encode hr]
          exact List.cons_prefix_cons.mpr ⟨rfl, hrest⟩

theorem accepted_acceptedLog (dataLen : Nat) (content : Bytes) :
    Accepted dataLen content (acceptedLog dataLen content) := by
  obtain ⟨hstored, hv⟩ := decodeFrom_stored content.length [] (List.nil_prefix : encodeLog [] <+: content)
  have hfirst : acceptedLog dataLen content <+: decodeLog content := List.takeWhile_prefix _
  constructor
  case valid => exact fun r hr ↦ hv r (hfirst.subset hr)
  case stored => exact (encodeLog_isPrefix hfirst).trans hstored
  case inside => exact fun r hr ↦ IndexRecord.fits_iff.mp (List.mem_takeWhile_imp hr)

/-- The accepted log is the longest. -/
theorem Accepted.isPrefix {dataLen : Nat} {content : Bytes} {log : List IndexRecord}
    (h : Accepted dataLen content log) : log <+: acceptedLog dataLen content := by
  have hlen := (length_le_logSize log).trans ((encodeLog_length log).symm.le.trans h.stored.length_le)
  obtain ⟨rest, hrest⟩ := isPrefix_decodeFrom [] h.valid h.stored hlen
  rw [acceptedLog, decodeLog, ← logSize_nil, ← hrest,
    List.takeWhile_append_of_pos fun r hr ↦ IndexRecord.fits_iff.mpr (h.inside r hr)]
  exact List.prefix_append _ _

/-! ## 2. Where the loop stops -/

/-- The framed record behind a log, if there is one, does not make the reader overflow. -/
def Unblocked (overflowChecks : Bool) (content : Bytes) (log : List IndexRecord) : Prop :=
  overflowChecks = true → ∀ record,
    recordAt content (logSize log) content.length = .ok record → KeyLengthFits record

theorem Unblocked.of_valid {overflowChecks : Bool} {content : Bytes} {log : List IndexRecord}
    {r : IndexRecord} (hv : r.Valid) (hp : encodeLog (log ++ [r]) <+: content) :
    Unblocked overflowChecks content log := by
  intro _ record hread
  have hlen := hp.length_le
  rw [encodeLog_length] at hlen
  rw [recordAt_encode hv hp hlen] at hread
  obtain rfl := Except.ok.inj hread
  cases r with
  | insert i => exact keyLengthFits_of_read (InsertRecord.read_encode i hv)
  | commit m =>
      intro hkind
      have hcommit := indexRecordKind_commit m
      rw [indexRecordKind_ok.mpr hkind] at hcommit
      cases hcommit

theorem recordAt_noPanic {content : Bytes} {start : Nat} :
    NoPanic (recordAt content start content.length) := by
  apply NoPanic.throwIf.bind
  intro _ hheader
  have hheader := throwIf_ok.mp hheader
  rw [preadContent_of_le (by omega), ok_bind]
  apply NoPanic.decodeAt.bind
  intro size _
  apply NoPanic.throwIf.bind
  intro _ hsize
  have hsize := throwIf_ok.mp hsize
  rw [preadContent_of_le (by omega), ok_bind]
  exact NoPanic.decodeAt.bind fun _ _ ↦ NoPanic.throwIf.bind fun _ _ ↦
    NoPanic.decodeAt.bind fun _ _ ↦ NoPanic.throwIf.bind fun _ _ ↦ trivial

namespace RawTable

theorem replayRecord_noPanic {overflowChecks : Bool} {dataFileLen : Nat} {r : Recovery}
    {record : Bytes} (hframed : Framed record) :
    NoPanic (replayRecord overflowChecks dataFileLen r record) ↔
      (overflowChecks = true → KeyLengthFits record) := by
  constructor
  · intro h hchecks hkind hlong
    rw [replayRecord, indexRecordKind_ok.mpr hkind, ok_bind] at h
    exact (InsertRecord.readChecked_noPanic hframed).mp h.of_bind hchecks hkind hlong
  · intro hfits
    apply NoPanic.indexRecordKind.bind
    intro kind _
    cases kind with
    | insert =>
        apply ((InsertRecord.readChecked_noPanic hframed).mpr hfits).bind
        intro i _
        split
        · trivial
        · trivial
    | commit =>
        apply (CommitRecord.read_noPanic record).bind
        intro m _
        split
        · trivial
        · trivial

theorem replayRecord_ok {overflowChecks : Bool} {dataFileLen : Nat} {r : Recovery}
    {record : Bytes} {next : Option Recovery} (hframed : Framed record)
    (h : replayRecord overflowChecks dataFileLen r record = .ok next) :
    ∃ i, decodeRecord record = .ok i := by
  obtain ⟨kind, -, h⟩ := bind_ok.mp h
  cases kind with
  | insert =>
      obtain ⟨i, hread, -⟩ := bind_ok.mp h
      obtain ⟨rfl, hv⟩ := InsertRecord.readChecked_ok hframed hread
      exact ⟨_, decodeRecord_encode hv⟩
  | commit =>
      obtain ⟨m, hread, -⟩ := bind_ok.mp h
      obtain ⟨rfl, hv⟩ := CommitRecord.read_ok hframed hread
      exact ⟨_, decodeRecord_encode hv⟩

/-- How the loop ends at a log: it leaves there, or a panic ends the call. -/
structure StopsAt (overflowChecks : Bool) (content : Bytes) (log : List IndexRecord)
    (result : Except TableError Recovery) : Prop where
  left : Unblocked overflowChecks content log → result = .ok (.ofLog log)
  panicked : ¬Unblocked overflowChecks content log → ∃ e, result = .error e

theorem StopsAt.of_unblocked {overflowChecks : Bool} {content : Bytes} {log : List IndexRecord}
    (h : Unblocked overflowChecks content log) :
    StopsAt overflowChecks content log (.ok (.ofLog log)) :=
  ⟨fun _ ↦ rfl, fun hblocked ↦ absurd h hblocked⟩

/-- The loop stops in front of bytes that are no record. -/
theorem recoverContent_unreadable {overflowChecks : Bool} {dataFileLen budget : Nat}
    {content : Bytes} {pre : List IndexRecord} {e : TableError}
    (h : recordAt content (logSize pre) content.length >>= decodeRecord = .error e) :
    StopsAt overflowChecks content pre
      (recoverContent overflowChecks dataFileLen content.length content (budget + 1) (.ofLog pre)) := by
  rw [recoverContent, Recovery.ofLog_offset]
  rcases recordAt_noPanic.cases with ⟨record, hread⟩ | ⟨message, hread⟩
  · obtain ⟨hframed, -, hwhole, -⟩ := recordAt_ok.mp hread
    have hlong := hframed.long
    have hno : ∀ next, replayRecord overflowChecks dataFileLen (.ofLog pre) record ≠ .ok next := by
      intro next hnext
      obtain ⟨i, hi⟩ := replayRecord_ok hframed hnext
      rw [hread, ok_bind, hi] at h
      cases h
    have hiff : NoPanic (replayRecord overflowChecks dataFileLen (.ofLog pre) record) ↔
        Unblocked overflowChecks content pre := by
      rw [replayRecord_noPanic hframed, Unblocked, hread]
      simp
    rw [if_pos (by omega), hread, ok_bind]
    constructor
    · intro hunblocked
      rcases (hiff.mpr hunblocked).cases with ⟨next, hnext⟩ | ⟨message, hcorrupt⟩
      · exact absurd hnext (hno next)
      · rw [hcorrupt]
        rfl
    · intro hblocked
      cases hresult : replayRecord overflowChecks dataFileLen (.ofLog pre) record with
      | ok next => exact absurd hresult (hno next)
      | error e =>
          have hpanic := mt hiff.mp hblocked
          rw [hresult] at hpanic
          cases e with
          | indexCorrupt message => exact absurd trivial hpanic
          | io => exact ⟨_, rfl⟩
          | valueTooLarge message => exact ⟨_, rfl⟩
          | panicked message => exact ⟨_, rfl⟩
  · have hunblocked : Unblocked overflowChecks content pre := by
      intro _ record hrecord
      rw [hread] at hrecord
      cases hrecord
    rw [hread, error_bind]
    split
    · exact .of_unblocked hunblocked
    · exact .of_unblocked hunblocked

/-- The loop replays what is readable behind a log, up to the first record that does not fit. -/
theorem recoverContent_accepts {overflowChecks : Bool} {dataFileLen : Nat} {content : Bytes}
    (budget : Nat) (pre : List IndexRecord) (hp : encodeLog pre <+: content)
    (hb : content.length ≤ logSize pre + budget) :
    StopsAt overflowChecks content
      (pre ++ (decodeFrom content budget (logSize pre)).takeWhile (IndexRecord.fits dataFileLen))
      (recoverContent overflowChecks dataFileLen content.length content budget (.ofLog pre)) := by
  induction budget generalizing pre with
  | zero =>
      -- every record takes some bytes, so the budget is spent only at the end of the file
      have hlen := hp.length_le
      rw [encodeLog_length] at hlen
      have hend : recordAt content (logSize pre) content.length =
          .error (.indexCorrupt "truncated index WAL record header") := by
        rw [recordAt, throwIf_of (by omega), error_bind]
      rw [decodeFrom, List.takeWhile_nil, List.append_nil, recoverContent]
      apply StopsAt.of_unblocked
      intro _ record hrecord
      rw [hend] at hrecord
      cases hrecord
  | succ budget ih =>
      rw [decodeFrom]
      cases h : recordAt content (logSize pre) content.length >>= decodeRecord with
      | error e =>
          rw [List.takeWhile_nil, List.append_nil]
          exact recoverContent_unreadable h
      | ok r =>
          obtain ⟨record, hread, hr⟩ := bind_ok.mp h
          obtain ⟨hstored, hv⟩ := stored_concat hp hread hr
          have hpos := r.size_pos
          rw [recoverContent_step hv hstored]
          dsimp only
          by_cases hfits : r.extent ≤ dataFileLen
          · have hrest := ih (pre ++ [r]) hstored
              (by rw [logSize_append, logSize_cons, logSize_nil]; omega)
            rw [logSize_append, logSize_cons, logSize_nil, Nat.add_zero, List.append_assoc] at hrest
            rw [if_pos hfits, List.takeWhile_cons_of_pos (IndexRecord.fits_iff.mpr hfits)]
            exact hrest
          · rw [if_neg hfits, List.takeWhile_cons_of_neg (mt IndexRecord.fits_iff.mp hfits),
              List.append_nil]
            exact .of_unblocked (.of_valid hv hstored)

theorem recoverContent_acceptedLog (overflowChecks : Bool) (dataFileLen : Nat) (content : Bytes) :
    StopsAt overflowChecks content (acceptedLog dataFileLen content)
      (recoverContent overflowChecks dataFileLen content.length content content.length .start) :=
  recoverContent_accepts content.length [] List.nil_prefix (by simp)

theorem recover_stopped {overflowChecks : Bool} {t : Table} {e : TableError}
    (he : recoverContent overflowChecks t.dataLog.content.length t.indexLog.content.length
      t.indexLog.content t.indexLog.content.length .start = .error e) :
    Ensures ⟨t, .none⟩ (recoverChecked overflowChecks) fun result _ ↦ result = .error e := by
  unfold recoverChecked
  refine .bind (.reads_none (fileLen_reads _) (.bind (.reads_none (fileLen_reads _)
    (.bind (.reads_none (recoverLoop_reads _ _ _ _ _) ?_)))))
  have he' : recoverContent overflowChecks (t.log .data).content.length
    (t.log .index).content.length t.indexLog.content (t.log .index).content.length .start =
      .error e := he
  simp only [he']

end RawTable

/-! ## 3. The call -/

/-- Both files have a length that a file can have. -/
structure Table.Sized (t : Table) : Prop where
  data : t.dataLog.content.length ≤ maxFileLen
  index : t.indexLog.content.length ≤ maxFileLen

/-- What `recover` reads of the files of a table. -/
def Table.accepted (t : Table) : List IndexRecord :=
  acceptedLog t.dataLog.content.length t.indexLog.content

def Table.recover (t : Table) (overflowChecks : Bool) : Outcome Unit :=
  t.call .none (RawTable.recoverChecked overflowChecks)

theorem accepted_dataLen_le (t : Table) : (replay t.accepted).dataLen ≤ t.dataLog.content.length :=
  replay_dataLen_le (accepted_acceptedLog _ _).inside

theorem committed_accepted_stored (t : Table) :
    encodeLog (committed t.accepted) <+: t.indexLog.content :=
  (encodeLog_isPrefix (committed_isPrefix _)).trans (accepted_acceptedLog _ _).stored

theorem recover_unblocked {overflowChecks : Bool} {t : Table} (hsized : t.Sized)
    (h : Unblocked overflowChecks t.indexLog.content t.accepted) :
    (t.recover overflowChecks).result = .ok () ∧ (t.recover overflowChecks).table =
      ⟨RawTable.trim t.dataLog (replay t.accepted).dataLen,
        RawTable.trim t.indexLog (logSize (committed t.accepted)), replay (committed t.accepted)⟩ := by
  have hstops := RawTable.recoverContent_acceptedLog overflowChecks t.dataLog.content.length
    t.indexLog.content
  have hindex := (committed_accepted_stored t).length_le
  rw [encodeLog_length] at hindex
  exact Ensures.call (Q := fun r t' ↦ r = .ok () ∧ t' = _)
    (recover_ofLog t (hstops.left h) ((accepted_dataLen_le t).trans hsized.data)
      (hindex.trans hsized.index))

theorem recover_blocked {overflowChecks : Bool} {t : Table}
    (h : ¬Unblocked overflowChecks t.indexLog.content t.accepted) :
    (t.recover overflowChecks).result ≠ .ok () := by
  obtain ⟨e, he⟩ := (RawTable.recoverContent_acceptedLog overflowChecks t.dataLog.content.length
    t.indexLog.content).panicked h
  have hcall := Ensures.call (Q := fun r _ ↦ r = .error e) (RawTable.recover_stopped he)
  intro hok
  rw [Table.recover, hcall] at hok
  cases hok

/-- `recover` returned: it installed the state that the log up to its last marker stands for and cut
both files at the committed lengths. -/
structure RecoversTo (t : Table) (log : List IndexRecord) (out : Outcome Unit) : Prop where
  result : out.result = .ok ()
  state : out.table.state = replay (committed log)
  data : out.table.dataLog.content = t.dataLog.content.take out.table.state.dataLen
  dataLen : out.table.dataLog.content.length = out.table.state.dataLen
  index : out.table.indexLog.content = encodeLog (committed log)
  indexLen : out.table.indexLog.content.length = out.table.state.indexLen

theorem recoversTo_accepted {overflowChecks : Bool} {t : Table} (hsized : t.Sized)
    (h : Unblocked overflowChecks t.indexLog.content t.accepted) :
    RecoversTo t t.accepted (t.recover overflowChecks) := by
  obtain ⟨hresult, htable⟩ := recover_unblocked hsized h
  have hdataLen : (replay (committed t.accepted)).dataLen = (replay t.accepted).dataLen :=
    (replay_committed t.accepted).2.2
  have hindex : resize t.indexLog.content (logSize (committed t.accepted)) =
      encodeLog (committed t.accepted) := by
    rw [← encodeLog_length]
    exact resize_prefix (committed_accepted_stored t)
  constructor
  case result => exact hresult
  case state => rw [htable]
  case data =>
    rw [htable]
    show (RawTable.trim _ _).content = _
    rw [RawTable.trim_content, hdataLen, resize_of_le (accepted_dataLen_le t)]
  case dataLen =>
    rw [htable]
    show (RawTable.trim _ _).content.length = _
    rw [RawTable.trim_content, resize_length, hdataLen]
  case index =>
    rw [htable]
    show (RawTable.trim _ _).content = _
    rw [RawTable.trim_content, hindex]
  case indexLen =>
    rw [htable]
    show (RawTable.trim _ _).content.length = _
    rw [RawTable.trim_content, resize_length, replay_indexLen]

/-- Recovery accepts the longest readable log inside the data WAL and replays its committed part, if
and only if no record behind that log makes the insert reader overflow. -/
theorem recover_committed (overflowChecks : Bool) (t : Table) (hsized : t.Sized) :
    Accepted t.dataLog.content.length t.indexLog.content t.accepted ∧
      (∀ log, Accepted t.dataLog.content.length t.indexLog.content log → log <+: t.accepted) ∧
      (RecoversTo t t.accepted (t.recover overflowChecks) ↔
        Unblocked overflowChecks t.indexLog.content t.accepted) := by
  refine ⟨accepted_acceptedLog _ _, fun log h ↦ h.isPrefix, fun h ↦ ?_, recoversTo_accepted hsized⟩
  by_contra hblocked
  exact recover_blocked hblocked h.result

/-- A table without a state yet, of an empty data WAL and an index WAL of one record. -/
def overflowingTable : Table := ⟨.ofBytes [], .ofBytes overflowingRecord, initialState⟩

theorem recover_committed_fails :
    overflowingTable.Sized ∧
      ¬RecoversTo overflowingTable overflowingTable.accepted (overflowingTable.recover true) := by
  have hframed : recordAt overflowingRecord 0 33 = .ok overflowingRecord := by decide +kernel
  have haccepted : overflowingTable.accepted = [] := by decide +kernel
  refine ⟨⟨by decide +kernel, by decide +kernel⟩, fun h ↦ recover_blocked ?_ h.result⟩
  rw [haccepted]
  intro h
  exact absurd (h rfl overflowingRecord hframed) (by decide +kernel)

/-- A table of one marker and one insertion behind it. -/
def markedTable : Table :=
  ⟨.ofBytes [7], .ofBytes (encodeLog [.commit ⟨1, 1⟩, .insert ⟨1, 0, 1, []⟩]), initialState⟩

theorem markedTable_unblocked :
    Unblocked true markedTable.indexLog.content markedTable.accepted := by
  have hend : recordAt markedTable.indexLog.content (logSize markedTable.accepted)
      markedTable.indexLog.content.length =
        .error (.indexCorrupt "truncated index WAL record header") := by
    decide +kernel
  intro _ record hrecord
  rw [hend] at hrecord
  cases hrecord

theorem recover_committed_marked :
    RecoversTo markedTable markedTable.accepted (markedTable.recover true) :=
  (recover_committed true markedTable ⟨by decide +kernel, by decide +kernel⟩).2.2.mpr
    markedTable_unblocked

/-! ## 4. Recovering twice -/

/-- Every committed record lies inside the data length of the last marker. -/
def CommittedInside (log : List IndexRecord) : Prop :=
  ∀ r ∈ committed log, r.extent ≤ (replay log).dataLen

instance (log : List IndexRecord) : Decidable (CommittedInside log) :=
  inferInstanceAs (Decidable (∀ _ ∈ _, _))

/-- An encoded log has no record behind any of its first parts that blocks the loop. -/
theorem unblocked_encodeLog {overflowChecks : Bool} {log kept : List IndexRecord}
    (hv : ∀ r ∈ log, r.Valid) (hk : kept <+: log) :
    Unblocked overflowChecks (encodeLog log) kept := by
  obtain ⟨rest, rfl⟩ := hk
  cases rest with
  | nil =>
      intro _ record hrecord
      rw [List.append_nil, encodeLog_length, recordAt, throwIf_of (by omega), error_bind] at hrecord
      cases hrecord
  | cons r rest =>
      rw [List.append_cons]
      exact .of_valid (hv r (by simp)) (encodeLog_isPrefix (List.prefix_append _ _))

theorem logSize_lt {log kept : List IndexRecord} (hk : kept <+: log) (hne : kept ≠ log) :
    logSize kept < logSize log := by
  obtain ⟨rest, rfl⟩ := hk
  cases rest with
  | nil => simp at hne
  | cons r rest =>
      have hpos := r.size_pos
      rw [logSize_append, logSize_cons]
      omega

/-- What a second recovery reads: the committed part, up to the first record behind the cut. -/
theorem accepted_recover {overflowChecks : Bool} {t : Table}
    (h : RecoversTo t t.accepted (t.recover overflowChecks)) :
    (t.recover overflowChecks).table.accepted =
      (committed t.accepted).takeWhile (IndexRecord.fits (replay t.accepted).dataLen) := by
  have hv : ∀ r ∈ committed t.accepted, r.Valid := fun r hr ↦
    (accepted_acceptedLog _ _).valid r ((committed_isPrefix _).subset hr)
  rw [Table.accepted, h.dataLen, h.index, h.state, acceptedLog, decodeLog_encodeLog hv,
    (replay_committed t.accepted).2.2]

/-- A second recovery changes nothing if and only if the data length of the last marker covers every
record that the first one keeps. -/
theorem recover_again (overflowChecks : Bool) (t : Table) (hsized : t.Sized)
    (hreturned : (t.recover overflowChecks).result = .ok ()) :
    (((t.recover overflowChecks).table.recover overflowChecks).result = .ok () ∧
      ((t.recover overflowChecks).table.recover overflowChecks).table =
        (t.recover overflowChecks).table) ↔
      CommittedInside t.accepted := by
  have hunblocked : Unblocked overflowChecks t.indexLog.content t.accepted := by
    by_contra hblocked
    exact recover_blocked hblocked hreturned
  have hfirst := recoversTo_accepted hsized hunblocked
  have hagain := accepted_recover hfirst
  have hv : ∀ r ∈ committed t.accepted, r.Valid := fun r hr ↦
    (accepted_acceptedLog _ _).valid r ((committed_isPrefix _).subset hr)
  generalize ht' : (t.recover overflowChecks).table = t' at hagain
  have hfirst' : t'.state = replay (committed t.accepted) := by rw [← ht', hfirst.state]
  have hindex : t'.indexLog.content = encodeLog (committed t.accepted) := by rw [← ht', hfirst.index]
  have hindexLen := hfirst.indexLen
  have hdataLen := hfirst.dataLen
  rw [ht'] at hindexLen hdataLen
  have hkept : t'.accepted <+: committed t.accepted := hagain ▸ List.takeWhile_prefix _
  have hsized' : t'.Sized := by
    constructor
    case data =>
      rw [hdataLen, hfirst', (replay_committed _).2.2]
      exact (accepted_dataLen_le t).trans hsized.data
    case index =>
      rw [hindex]
      exact (committed_accepted_stored t).length_le.trans hsized.index
  have hunblocked' : Unblocked overflowChecks t'.indexLog.content t'.accepted := by
    rw [hindex]
    exact unblocked_encodeLog hv hkept
  obtain ⟨hresult, htable⟩ := recover_unblocked hsized' hunblocked'
  constructor
  · rintro ⟨-, hsame⟩ r hr
    -- the same length of the index WAL is committed only if no record was left out
    have hstate := congrArg (fun t ↦ t.state.indexLen) (htable.symm.trans hsame)
    simp only [hfirst', replay_indexLen] at hstate
    have hall : t'.accepted = committed t.accepted := by
      by_contra hne
      have hlt := logSize_lt hkept hne
      have hle := (encodeLog_isPrefix (committed_isPrefix t'.accepted)).length_le
      rw [encodeLog_length, encodeLog_length] at hle
      omega
    rw [hagain, List.takeWhile_eq_self_iff] at hall
    exact IndexRecord.fits_iff.mp (hall r hr)
  · intro hinside
    have hall : t'.accepted = committed t.accepted := by
      rw [hagain, List.takeWhile_eq_self_iff]
      exact fun r hr ↦ IndexRecord.fits_iff.mpr (hinside r hr)
    refine ⟨hresult, ?_⟩
    rw [hfirst'] at hdataLen hindexLen
    rw [replay_indexLen] at hindexLen
    rw [htable, hall, committed_committed, RawTable.trim_of_eq hdataLen, RawTable.trim_of_eq hindexLen,
      ← hfirst']

/-- An insertion of five bytes at offset 10, and a marker that commits three bytes. -/
def shrinkingTable : Table :=
  ⟨.ofBytes (List.replicate 20 0), .ofBytes (encodeLog [.insert ⟨0, 10, 5, []⟩, .commit ⟨1, 3⟩]),
    initialState⟩

theorem recover_again_fails :
    (shrinkingTable.recover true).result = .ok () ∧
      ((shrinkingTable.recover true).table.recover true).table ≠ (shrinkingTable.recover true).table := by
  have hfirst : (shrinkingTable.recover true).result = .ok () ∧
      (shrinkingTable.recover true).table.state.currentVersion = 1 := by decide +kernel
  have hsecond :
      ((shrinkingTable.recover true).table.recover true).table.state.currentVersion = 0 := by
    decide +kernel
  refine ⟨hfirst.1, fun hsame ↦ ?_⟩
  rw [hsame, hfirst.2] at hsecond
  exact absurd hsecond (by decide)

theorem recover_again_marked :
    ((markedTable.recover true).table.recover true).table = (markedTable.recover true).table := by
  have hsized : markedTable.Sized := ⟨by decide +kernel, by decide +kernel⟩
  have hreturned := (recoversTo_accepted hsized markedTable_unblocked).result
  exact ((recover_again true markedTable hsized hreturned).mpr (by decide +kernel)).2

end Stainless.Kvstore
