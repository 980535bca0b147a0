/-!
# Failures of index queries

Why a criterion, a plan or an index was refused.
-/
namespace Replica

/-- Why a query could not be built. -/
inductive QueryError where
  | invalidCriterion (reason : String)
  | invalidInput (reason : String)
  | unknownIndex (name : String)
  | unknownIndexType (name : String)
  | emptyPlan
  deriving DecidableEq

namespace QueryError

def message : QueryError → String
  | .invalidCriterion reason => "invalid criterion: " ++ reason
  | .invalidInput reason => "invalid input: " ++ reason
  | .unknownIndex name => "unknown index: " ++ name
  | .unknownIndexType name => "unknown index type: " ++ name
  | .emptyPlan => "cannot compile a query plan without criteria"

end QueryError

end Replica
