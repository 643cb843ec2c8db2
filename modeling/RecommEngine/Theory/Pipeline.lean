/-
# Theory.Pipeline -- requests and replies over one connection

A peer answers every request with exactly one reply, in the order it receives
them; its answers may depend on all it has received.  A client may send any
number of requests before it reads, and a read returns the reply to the oldest
request that was not read yet.

`send_all` says what is unread after a list of requests, `exchange` is the
connection once their replies were read too.  A connection is `Settled` when
nothing is unread: then the replies read are those to the requests sent, each
in its turn.
-/
import Mathlib

namespace RecommEngine.Theory

set_option autoImplicit false

/-- A connection to a peer with state `σ`, as its client sees it.  `sent` and
`answered` record the past and are never read by an operation. -/
structure Pipeline (σ ρ α : Type) where
  session : σ
  /-- The requests whose reply was not read, with the reply, oldest first. -/
  unread : List (ρ × α) := []
  sent : List ρ := []
  answered : List (ρ × α) := []

namespace Pipeline

variable {σ ρ α : Type} (answer : σ → ρ → α × σ)

/-! ## The peer -/

/-- The peer after a list of requests. -/
def after (s : σ) (requests : List ρ) : σ :=
  requests.foldl (fun s request => (answer s request).2) s

/-- Each request of a list with its reply. -/
def answers : σ → List ρ → List (ρ × α)
  | _, [] => []
  | s, request :: requests =>
      (request, (answer s request).1) :: answers (answer s request).2 requests

@[simp] theorem after_nil (s : σ) : after answer s [] = s := rfl

@[simp] theorem after_cons (s : σ) (request : ρ) (requests : List ρ) :
    after answer s (request :: requests) = after answer (answer s request).2 requests := rfl

theorem after_append (s : σ) (requests more : List ρ) :
    after answer s (requests ++ more) = after answer (after answer s requests) more :=
  List.foldl_append

theorem answers_append (s : σ) (requests more : List ρ) :
    answers answer s (requests ++ more) =
      answers answer s requests ++ answers answer (after answer s requests) more := by
  induction requests generalizing s with
  | nil => rfl
  | cons request requests ih => simp [answers, ih]

@[simp] theorem map_fst_answers (s : σ) (requests : List ρ) :
    (answers answer s requests).map Prod.fst = requests := by
  induction requests generalizing s with
  | nil => rfl
  | cons request requests ih => simp [answers, ih]

@[simp] theorem length_answers (s : σ) (requests : List ρ) :
    (answers answer s requests).length = requests.length := by
  rw [← List.length_map Prod.fst, map_fst_answers]

/-! ## The client -/

def send (p : Pipeline σ ρ α) (request : ρ) : Pipeline σ ρ α :=
  let (reply, session) := answer p.session request
  { p with session, unread := p.unread ++ [(request, reply)], sent := p.sent ++ [request] }

/-- The oldest reply; there is none if every request was read. -/
def receive (p : Pipeline σ ρ α) : Option α × Pipeline σ ρ α :=
  match p.unread with
  | [] => (none, p)
  | next :: unread => (some next.2, { p with unread, answered := p.answered ++ [next] })

/-- The connection after the replies `read` were read and `left` are unread. -/
def readTo (p : Pipeline σ ρ α) (read left : List (ρ × α)) : Pipeline σ ρ α :=
  { p with unread := left, answered := p.answered ++ read }

/-- The connection after a list of requests was sent and every reply read. -/
def exchange (p : Pipeline σ ρ α) (requests : List ρ) : Pipeline σ ρ α where
  session := after answer p.session requests
  sent := p.sent ++ requests
  answered := p.answered ++ answers answer p.session requests

theorem receive_of_unread {p : Pipeline σ ρ α} {next : ρ × α} {left : List (ρ × α)}
    (unread : p.unread = next :: left) : p.receive = (some next.2, p.readTo [next] left) := by
  rw [receive, unread, readTo]

theorem readTo_readTo (p : Pipeline σ ρ α) (read more left left' : List (ρ × α)) :
    (p.readTo read left).readTo more left' = p.readTo (read ++ more) left' := by
  simp [readTo]

theorem send_all (p : Pipeline σ ρ α) (requests : List ρ) :
    requests.foldl (send answer) p =
      { p with
        session := after answer p.session requests
        unread := p.unread ++ answers answer p.session requests
        sent := p.sent ++ requests } := by
  induction requests generalizing p with
  | nil => simp [answers]
  | cons request requests ih => simp [ih, send, answers]

/-- Reading everything that a list of requests left unread completes the exchange. -/
theorem readTo_send_all {p : Pipeline σ ρ α} (requests : List ρ) :
    (requests.foldl (send answer) p).readTo (answers answer p.session requests) [] =
      p.exchange answer requests := by
  simp [send_all, readTo, exchange]

/-! ## Nothing outstanding -/

/-- Every reply was read, and each was the reply to the request in its place. -/
structure Settled (p : Pipeline σ ρ α) : Prop where
  allRead : p.unread = []
  inTurn : p.answered.map Prod.fst = p.sent

theorem Settled.exchange {p : Pipeline σ ρ α} (settled : p.Settled) (requests : List ρ) :
    (p.exchange answer requests).Settled :=
  ⟨rfl, by simp [Pipeline.exchange, settled.inTurn]⟩

end Pipeline

end RecommEngine.Theory
