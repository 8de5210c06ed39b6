import InferenceGateway.Document.Record
import InferenceGateway.Page.Window
import InferenceGateway.Registry

/-!
# The directory

What clients can learn of the routes: lists of them, page by page, and single ones. There
are two views of a route, as an endpoint and, for older clients, as a route.
-/

namespace InferenceGateway

open Document

/-- A model as clients see it. -/
structure ModelInfo where
  name : String
  provider : String
deriving DecidableEq, Repr

namespace ModelInfo

/-- The members of a model. -/
def fields : Fields ModelInfo :=
  ModelInfo.mk <$> .required "name" .text <*> .required "provider" .text

/-- Reads a model. -/
def read : Reader ModelInfo := fields.closed "struct ModelInfo"

/-- A model as data. -/
def toJson (m : ModelInfo) : Json :=
  .object [("name", .text m.name), ("provider", .text m.provider)]

end ModelInfo

/-- A route as an endpoint. -/
structure Endpoint where
  name : String
  type : EndpointType
  model : ModelInfo
  url : String
  /-- There are no limits yet. -/
  limit : Option Json

namespace Endpoint

/-- The members of an endpoint. -/
def fields : Fields Endpoint :=
  Endpoint.mk <$> .required "name" .text <*> .required "endpoint_type" EndpointType.read
    <*> .required "model" ModelInfo.read <*> .required "endpoint_url" .text
    <*> .optional "limit" .value

/-- Reads an endpoint. -/
def read : Reader Endpoint := fields.closed "struct Endpoint"

/-- An endpoint as data. -/
def toJson (e : Endpoint) : Json := .object [("name", .text e.name),
  ("endpoint_type", e.type.toJson), ("model", e.model.toJson), ("endpoint_url", .text e.url),
  ("limit", .ofOption id e.limit)]

end Endpoint

/-- A route as a route. -/
structure RouteView where
  name : String
  type : EndpointType
  model : ModelInfo
  url : String
  /-- There are no limits yet. -/
  limit : Option Json

namespace RouteView

/-- The members of a route. -/
def fields : Fields RouteView :=
  RouteView.mk <$> .required "name" .text <*> .required "route_type" EndpointType.read
    <*> .required "model" ModelInfo.read <*> .required "route_url" .text
    <*> .optional "limit" .value

/-- Reads a route. -/
def read : Reader RouteView := fields.closed "struct RouteView"

/-- A route as data. -/
def toJson (r : RouteView) : Json := .object [("name", .text r.name),
  ("route_type", r.type.toJson), ("model", r.model.toJson), ("route_url", .text r.url),
  ("limit", .ofOption id r.limit)]

end RouteView

namespace Route

/-- What the path of an invocation of an endpoint begins with. -/
def endpointBase : String := "/endpoints/"

/-- What the path of an invocation of a route begins with. -/
def routeBase : String := "/gateway/"

/-- What the path of an invocation ends in. -/
def invocationSuffix : String := "/invocations"

/-- The model of a route. -/
def modelInfo (r : Route) : ModelInfo := ⟨r.model.name, r.model.provider⟩

/-- The route as an endpoint. -/
def toEndpoint (r : Route) : Endpoint :=
  ⟨r.name, r.type, r.modelInfo, endpointBase ++ r.name ++ invocationSuffix, none⟩

/-- The route as a route. -/
def toView (r : Route) : RouteView :=
  ⟨r.name, r.type, r.modelInfo, routeBase ++ r.name ++ invocationSuffix, none⟩

end Route

/-- A page of a list. -/
structure Listing (α : Type) where
  items : List α
  next : Option String

/-- A page with its items under a name. -/
def Listing.toJson {α : Type} (name : String) (write : α → Json) (l : Listing α) : Json :=
  .object ([(name, .array (l.items.map write))] ++ Json.member? "next_page_token" .text l.next)

/-- The routes of a table as clients see them, on pages of two sizes. -/
structure Directory where
  table : Table
  endpointsPerPage : Nat
  routesPerPage : Nat

namespace Directory

/-- The usual number of endpoints on a page. -/
def usualEndpointsPerPage : Nat := 25

/-- The usual number of routes on a page. -/
def usualRoutesPerPage : Nat := 3000

/-- The directory of a table with pages of the usual sizes. -/
def ofTable (t : Table) : Directory := ⟨t, usualEndpointsPerPage, usualRoutesPerPage⟩

/-- The page of the routes that a token asks for, in some view. -/
def page {α : Type} (d : Directory) (view : Route → α) (size : Nat) (token : Option String) :
    Except GatewayError (Listing α) :=
  match Page.window d.table.size token size with
  | .ok w => .ok ⟨(w.items d.table.routes).map view, w.next⟩
  | .error e => .error (.badRequest e)

/-- A page of endpoints. -/
def listEndpoints (d : Directory) (token : Option String) :
    Except GatewayError (Listing Endpoint) :=
  d.page Route.toEndpoint d.endpointsPerPage token

/-- A page of routes. -/
def searchRoutes (d : Directory) (token : Option String) :
    Except GatewayError (Listing RouteView) :=
  d.page Route.toView d.routesPerPage token

/-- The endpoint of a name. -/
def getEndpoint (d : Directory) (name : String) : Except GatewayError Endpoint :=
  match d.table.get? name with
  | some r => .ok r.toEndpoint
  | none => .error (.endpointNotFound name)

/-- The route of a name. -/
def getRoute (d : Directory) (name : String) : Except GatewayError RouteView :=
  match d.table.get? name with
  | some r => .ok r.toView
  | none => .error (.routeNotFound name)

end Directory

end InferenceGateway
