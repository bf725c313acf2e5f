/-!
# Method names

What the relay offers to us, and what we offer to the relay.
-/

set_option autoImplicit false

namespace GameRelay.Method

def newGame : String := "ServerRPCMethods.NewGame"

def removeGame : String := "ServerRPCMethods.RemoveGame"

def gameConnected : String := "ClientRPCMethods.GameConnected"

def gameClosed : String := "ClientRPCMethods.GameClosed"

def status : String := "ClientRPCMethods.Status"

end GameRelay.Method
