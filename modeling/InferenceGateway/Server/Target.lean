import InferenceGateway.Directory
import InferenceGateway.Text.Quoted

/-!
# Targets

What a request is for, by its method and its path. Paths are made of a base, for some
targets a single segment, and for invocations a suffix. A path that exists only under the
other method is told from one that does not exist at all.
-/

namespace InferenceGateway.Server

/-- What a request is for. Segments are as they stand in the path. -/
inductive Target where
  | health
  | metrics
  | invoke (segment : String)
  | listEndpoints
  | getEndpoint (segment : String)
  | searchRoutes
  | getRoute (segment : String)
  | getLimits
  | setLimits
  /-- The path exists under another method. -/
  | methodNotAllowed (allow : String)
  | notFound
deriving DecidableEq, Repr

namespace Target

/-! ## Paths -/

/-- Where the endpoints are. -/
def endpointsBase : String := "/api/2.0/endpoints/"

/-- Where the routes are. -/
def routesBase : String := "/api/2.0/gateway/routes/"

/-- Where the limits of endpoints are. -/
def endpointLimitsBase : String := "/api/2.0/endpoints/limits/"

/-- Where the limits of routes are. -/
def routeLimitsBase : String := "/api/2.0/gateway/limits/"

/-- The paths that tell whether the gateway is there. -/
def healthPaths : List String := ["/health", "/api/2.0/gateway/health"]

/-- The path of the counters. -/
def metricsPath : String := "/metrics"

/-- A text without the base that it begins with. -/
def afterBase? (base path : List Char) : Option (List Char) :=
  if base.isPrefixOf path then some (path.drop base.length) else none

/-- A text without the suffix that it ends in. -/
def beforeSuffix? (suffix path : List Char) : Option (List Char) :=
  if suffix.isSuffixOf path then some (path.take (path.length - suffix.length)) else none

/-- Whether a text is a single segment of a path. -/
def isSegment (s : List Char) : Bool := !s.isEmpty && !s.contains '/'

/-- The single segment after a base. -/
def segment? (base path : String) : Option String :=
  ((afterBase? base.toList path.toList).filter isSegment).map String.ofList

/-- The single segment between a base and a suffix. -/
def segmentBetween? (base suffix path : String) : Option String :=
  (((afterBase? base.toList path.toList).bind (beforeSuffix? suffix.toList)).filter
    isSegment).map String.ofList

/-- Whether a path is a base, with or without its last slash. -/
def isCollection (base path : String) : Bool :=
  path = base || path.toList = base.toList.dropLast

/-! ## Routing -/

/-- What a path is for under the method `GET`. -/
def ofGet (path : String) : Option Target :=
  if healthPaths.contains path then some .health
  else if path = metricsPath then some .metrics
  else if (segment? endpointLimitsBase path).isSome || (segment? routeLimitsBase path).isSome then
    some .getLimits
  else if isCollection endpointsBase path then some .listEndpoints
  else match segment? endpointsBase path with
    | some s => some (.getEndpoint s)
    | none =>
      if isCollection routesBase path then some .searchRoutes
      else (segment? routesBase path).map .getRoute

/-- What a path is for under the method `POST`. -/
def ofPost (path : String) : Option Target :=
  if isCollection endpointLimitsBase path || isCollection routeLimitsBase path then
    some .setLimits
  else
    ([Route.endpointBase, Route.routeBase].findSome? fun base =>
      segmentBetween? base Route.invocationSuffix path).map .invoke

/-- What a path is for under a method. -/
def route (method path : String) : Option Target :=
  if method = "GET" then ofGet path else if method = "POST" then ofPost path else none

/-- What a request is for. -/
def resolve (method path : String) : Target :=
  match route method path with
  | some t => t
  | none =>
    if (route "GET" path).isSome then .methodNotAllowed "GET"
    else if (route "POST" path).isSome then .methodNotAllowed "POST"
    else .notFound

/-- How a target is displayed. -/
def display : Target → String
  | .health => "Health"
  | .metrics => "Metrics"
  | .invoke s => "Invoke(" ++ Text.quoted s ++ ")"
  | .listEndpoints => "ListEndpoints"
  | .getEndpoint s => "GetEndpoint(" ++ Text.quoted s ++ ")"
  | .searchRoutes => "SearchRoutes"
  | .getRoute s => "GetRoute(" ++ Text.quoted s ++ ")"
  | .getLimits => "GetLimits"
  | .setLimits => "SetLimits"
  | .methodNotAllowed allow => "MethodNotAllowed(" ++ Text.quoted allow ++ ")"
  | .notFound => "NotFound"

end Target

end InferenceGateway.Server
