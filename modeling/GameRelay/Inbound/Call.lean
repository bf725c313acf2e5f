import GameRelay.Frame.Request
import GameRelay.Frame.Identity
import GameRelay.Method

/-!
# What the relay may ask of us

Three methods are known. The two notices carry the identity of a game as their
argument; the argument of a status request is not looked at.
-/

set_option autoImplicit false

namespace GameRelay.Inbound

open GameRelay.Frame GameRelay.Json

inductive Call where
  | gameConnected (game : Identity)
  | gameClosed (game : Identity)
  | status
  deriving DecidableEq, Repr

inductive Rejection where
  | unknownMethod (method : String)
  | invalidParams (method : String) (what : Mismatch)
  deriving DecidableEq, Repr

def Rejection.message : Rejection → String
  | .unknownMethod method => s!"rpc: can't find method {method}"
  | .invalidParams method what => s!"invalid params for {method}: {what.message}"

namespace Call

def identity (request : Request) : Except Rejection Identity :=
  (Identity.ofValue request.argument).mapError (.invalidParams request.method)

def ofRequest (request : Request) : Except Rejection Call :=
  if request.method = Method.gameConnected then (identity request).map .gameConnected
  else if request.method = Method.gameClosed then (identity request).map .gameClosed
  else if request.method = Method.status then .ok .status
  else .error (.unknownMethod request.method)

end Call

end GameRelay.Inbound
