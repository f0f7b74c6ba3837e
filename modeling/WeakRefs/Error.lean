/-!
# Why an operation on a weak reference can fail
-/

namespace WeakRefs

inductive RefError where
  | notFinalizable (typeName : String)
  | deadObject
  | heapExhausted
  deriving DecidableEq

namespace RefError

def message : RefError → String
  | notFinalizable typeName => "can not build weak reference for " ++ typeName
  | deadObject => "object has been destroyed"
  | heapExhausted => "heap slots exhausted"

end RefError

end WeakRefs
