import EidosDB.Client.Messages
import EidosDB.Server.DaemonParity

/-! # Sessions

    A client makes calls, and the process of the server may end and start again
    between them.  Over a database in memory each call returns what it means;
    the server refines the database; so what the client is told by the server
    over its files is what its calls mean. -/

namespace EidosDB

namespace EidosClient

/-! ## A client of a database in memory -/

section database

variable {stores : KindStores FlatIndex PlacedGraph InMemoryLexicalIndex InMemoryPayloadStore}
  {ops : F64Ops}

theorem onServer_of_error {call : ClientCall} {e : ClientError} (h : request call = .error e) :
    Event.onServer (.call call) = none := by
  unfold Event.onServer
  dsimp only
  rw [h]

theorem onServer_of_ok {call : ClientCall} {r : Request} (h : request call = .ok r) :
    Event.onServer (.call call) = some (.request r) := by
  unfold Event.onServer
  dsimp only
  rw [h]

theorem results_of_error {call : ClientCall} {e : ClientError} (h : request call = .error e)
    (rest : List Event) (outputs : List Daemon.Output) :
    results (.call call :: rest) outputs = .error e :: results rest outputs := by
  rw [results.eq_def]
  dsimp only
  rw [h]

theorem results_of_reply {call : ClientCall} {r : Request} (h : request call = .ok r)
    {reply : Reply} {result : Except ClientError ClientAnswer}
    (hreceived : received call reply = some result) (rest : List Event)
    (outputs : List Daemon.Output) :
    results (.call call :: rest) (.reply reply :: outputs) = result :: results rest outputs := by
  rw [results, h]
  dsimp only
  rw [hreceived]

theorem results_of_unread {call : ClientCall} {r : Request} (h : request call = .ok r)
    {reply : Reply} (hreceived : received call reply = none) (rest : List Event)
    (outputs : List Daemon.Output) :
    results (.call call :: rest) (.reply reply :: outputs) = [] := by
  rw [results, h]
  dsimp only
  rw [hreceived]

/-- A client that waits for a reply is told nothing more without one. -/
theorem results_of_silent {call : ClientCall} {r : Request} (h : request call = .ok r)
    (outputs : List Daemon.Output)
    (hsilent : ∀ reply later, outputs = Daemon.Output.reply reply :: later → False)
    (rest : List Event) : results (.call call :: rest) outputs = [] := by
  rw [results, h]
  exact hsilent

theorem filterMap_restart (order : HashOrder) (rest : List Event) :
    (Event.restart order :: rest).filterMap Event.onServer =
      .restart order :: rest.filterMap Event.onServer := rfl

/-- Each call returns what it means. -/
theorem results_run (events : List Event) (db : Database) :
    results events (Database.run stores ops (events.filterMap Event.onServer) db) =
      Direct.run stores ops events db := by
  induction events generalizing db with
  | nil => rfl
  | cons event rest ih =>
    cases event with
    | call call =>
      rw [Direct.run]
      cases hrequest : request call with
      | error e =>
        rw [List.filterMap_cons_none (onServer_of_error hrequest), results_of_error hrequest,
          request_of_error hrequest]
        exact congrArg _ (ih db)
      | ok r =>
        obtain ⟨reply, hanswer, hreceived⟩ := request_of_ok hrequest db
        have hrun : Database.run stores ops (.request r :: rest.filterMap Event.onServer) db =
            .reply reply :: Database.run stores ops (rest.filterMap Event.onServer)
              (Direct.answer stores ops db call).2 := by
          rw [Database.run, Database.step, hanswer]
          rfl
        rw [List.filterMap_cons_some (onServer_of_ok hrequest), hrun,
          results_of_reply hrequest hreceived, ih]
    | restart order =>
      rw [Direct.run, filterMap_restart, Database.run, Database.step]
      by_cases hplaced : db.isPlaced = true
      · rw [if_pos hplaced, if_pos hplaced]
        exact ih db
      · rw [if_neg hplaced, if_neg hplaced]
        rfl

end database

/-! ## A client of the server -/

/-- What a client is told beside what its calls mean.  Nothing is promised
    after an internal error, or if a file cannot grow. -/
inductive ResultsAgree : List (Except ClientError ClientAnswer) →
    List (Except ClientError ClientAnswer) → Prop where
  | nothing {results : List (Except ClientError ClientAnswer)} : ResultsAgree results []
  | same {result : Except ClientError ClientAnswer}
      {results results' : List (Except ClientError ClientAnswer)}
      (rest : ResultsAgree results results') : ResultsAgree (result :: results) (result :: results')
  | internal {status : Status} {results results' : List (Except ClientError ClientAnswer)}
      (code : status.code = .internal) :
      ResultsAgree (.error (.status status) :: results) (.error (.status status) :: results')
  | tooLarge {status : Status} {results results' : List (Except ClientError ClientAnswer)}
      (excuse : status.TooLarge) : ResultsAgree (.error (.status status) :: results) results'

/-- What comes of the reply to a call. -/
theorem ResultsAgree.reply {call : ClientCall} {r : Request} (hrequest : request call = .ok r)
    {rest : List Event} {reply : Reply} {outputs outputs' : List Daemon.Output}
    (h : Agrees (.reply reply :: outputs) outputs')
    (hrest : ∀ later, Agrees outputs later →
      ResultsAgree (results rest outputs) (results rest later)) :
    ResultsAgree (results (.call call :: rest) (.reply reply :: outputs))
      (results (.call call :: rest) outputs') := by
  cases h with
  | nothing =>
    rw [results_of_silent hrequest [] nofun]
    exact .nothing
  | same later =>
    cases hreceived : received call reply with
    | none =>
      rw [results_of_unread hrequest hreceived, results_of_unread hrequest hreceived]
      exact .nothing
    | some result =>
      rw [results_of_reply hrequest hreceived, results_of_reply hrequest hreceived]
      exact .same (hrest _ later)
  | internal code =>
    rw [results_of_reply hrequest rfl, results_of_reply hrequest rfl]
    exact .internal code
  | tooLarge excuse =>
    rw [results_of_reply hrequest rfl]
    exact .tooLarge excuse

section server

variable {codecs : ServerCodecs}
  {stores : KindStores FlatStore HnswStore LexicalStore StoredPayloads} {ops : F64Ops}

theorem run_of_answer {d : Daemon} {r : Request} {p : Reply × Daemon}
    (h : d.answer codecs stores ops r = some p) (rest : List Daemon.Event) :
    Daemon.run codecs stores ops (.request r :: rest) d =
      .reply p.1 :: Daemon.run codecs stores ops rest p.2 := by
  rw [Daemon.run, Daemon.step, h]
  rfl

theorem run_of_panic {d : Daemon} {r : Request} (h : d.answer codecs stores ops r = none)
    (rest : List Daemon.Event) :
    Daemon.run codecs stores ops (.request r :: rest) d = [.down] := by
  rw [Daemon.run, Daemon.step, h]
  rfl

theorem run_of_restart {d started : Daemon} {order : HashOrder}
    (h : d.restart codecs order = some started) (rest : List Daemon.Event) :
    Daemon.run codecs stores ops (.restart order :: rest) d =
      .started :: Daemon.run codecs stores ops rest started := by
  rw [Daemon.run, Daemon.step, h]
  rfl

theorem run_of_failure {d : Daemon} {order : HashOrder} (h : d.restart codecs order = none)
    (rest : List Daemon.Event) :
    Daemon.run codecs stores ops (.restart order :: rest) d = [.down] := by
  rw [Daemon.run, Daemon.step, h]
  rfl

/-- What is promised of the outputs of a server is promised of what a client
    makes of them. -/
theorem ResultsAgree.of_agrees (events : List Event) (d : Daemon) {outputs' : List Daemon.Output}
    (h : Agrees (Daemon.run codecs stores ops (events.filterMap Event.onServer) d) outputs') :
    ResultsAgree
      (results events (Daemon.run codecs stores ops (events.filterMap Event.onServer) d))
      (results events outputs') := by
  induction events generalizing d outputs' with
  | nil => exact .nothing
  | cons event rest ih =>
    cases event with
    | call call =>
      cases hrequest : request call with
      | error e =>
        rw [List.filterMap_cons_none (onServer_of_error hrequest)] at h ⊢
        rw [results_of_error hrequest, results_of_error hrequest]
        exact .same (ih d h)
      | ok r =>
        rw [List.filterMap_cons_some (onServer_of_ok hrequest)] at h ⊢
        cases hanswer : d.answer codecs stores ops r with
        | some p =>
          rw [run_of_answer hanswer] at h ⊢
          exact .reply hrequest h fun _ later => ih p.2 later
        | none =>
          -- the process is down: the client is told nothing more
          rw [run_of_panic hanswer] at h ⊢
          cases h with
          | nothing =>
            rw [results_of_silent hrequest [] nofun]
            exact .nothing
          | same later =>
            rw [results_of_silent hrequest [.down] nofun,
              results_of_silent hrequest (.down :: _) nofun]
            exact .nothing
    | restart order =>
      rw [filterMap_restart] at h ⊢
      cases hrestart : d.restart codecs order with
      | some started =>
        rw [run_of_restart hrestart] at h ⊢
        cases h with
        | nothing => exact .nothing
        | same later => exact ih started later
      | none =>
        rw [run_of_failure hrestart] at h ⊢
        cases h with
        | nothing => exact .nothing
        | same later => exact .nothing

end server

end EidosClient

open EidosClient

/-- A point of a graph is found after a restart; a search that asks for more
    hits than a message can ask for is not sent. -/
def notesSession : List EidosClient.Event :=
  [.call (.createCollection ⟨"notes", .dotProduct, .one, .hnsw, none⟩),
    .call (.upsert .ascending (.ascending, .ascending) "notes"
      ⟨nilId, .single (F32.ofInt 1) (by decide), none, none⟩),
    .restart .ascending,
    .call (.search .ascending .ascending "notes"
      ⟨.single (F32.ofInt 3) (by decide), 2, none, none⟩),
    .call (.search .ascending .ascending "notes"
      ⟨.single (F32.ofInt 3) (by decide), 2 ^ 32, none, none⟩),
    .call (.compact "notes"),
    .restart .descending,
    .call (.dropCollection "notes"),
    .call (.listCollections .ascending)]

end EidosDB
