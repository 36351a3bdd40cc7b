namespace Smalltalk

/-! The screen shows the bitmap it is given and the shape of the cursor. What it
was asked to do is kept in the order in which it was asked. -/

/-- A bitmap of words. -/
structure Bitmap where
  words : Array UInt32
  width : Nat
  height : Nat
  depth : Nat
deriving DecidableEq, Inhabited

/-- What the screen was asked to do. -/
inductive ScreenRequest where
  /-- Show a bitmap; `frame` counts those shown so far. -/
  | display (bitmap : Bitmap) (frame : Nat)
  | cursor (shape : Array UInt32) (mask : Option (Array UInt32))
  /-- Let the surroundings deliver their input. -/
  | poll
deriving DecidableEq

/-- The size of the screen and what it was asked, the last request first. -/
structure Screen where
  width : UInt32 := 640
  height : UInt32 := 480
  frames : Nat := 0
  requests : List ScreenRequest := []
deriving DecidableEq, Inhabited

namespace Screen

def update (screen : Screen) (bitmap : Bitmap) : Screen :=
  let frames := screen.frames + 1
  { screen with frames, requests := .display bitmap frames :: screen.requests }

def setCursor (screen : Screen) (shape : Array UInt32) (mask : Option (Array UInt32)) : Screen :=
  { screen with requests := .cursor shape mask :: screen.requests }

def poll (screen : Screen) : Screen := { screen with requests := .poll :: screen.requests }

/-- Take the requests made since the last time, oldest first. -/
def takeRequests (screen : Screen) : List ScreenRequest × Screen :=
  (screen.requests.reverse, { screen with requests := [] })

end Screen

end Smalltalk
