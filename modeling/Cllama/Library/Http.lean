import Cllama.Library.Bytes
import Cllama.Library.Lines

/-!
# HTTP exchanges seen from a client

A client sends one request and either receives a response, whose body arrives in chunks,
or the transport fails.  `reply` is what a blocking request returns; `send` hands the
chunks to a content receiver as they arrive, and a refused chunk cancels the request,
so that no response is returned.
-/

namespace Cllama.Library.Http

universe u

variable {σ : Type u}

/-- What the other side and the transport do during one request. -/
structure Exchange where
  chunks : List Bytes
  status : Option Int

namespace Exchange

/-- The body of the response. -/
def body (exchange : Exchange) : Bytes := exchange.chunks.flatten

/-- The status and the body that a blocking request returns. -/
def reply (exchange : Exchange) : Option (Int × Bytes) :=
  exchange.status.map fun status => (status, exchange.body)

/-- The status that a request with a content receiver returns, and the receiver's state
after it. -/
def send (receiver : Bytes → σ → Bool × σ) (exchange : Exchange) (state : σ) :
    Option Int × σ :=
  match Lines.foldWhile receiver exchange.chunks state with
  | (true, next) => (exchange.status, next)
  | (false, next) => (none, next)

end Exchange

end Cllama.Library.Http
