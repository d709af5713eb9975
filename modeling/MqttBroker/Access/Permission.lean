import MqttBroker.Message
import MqttBroker.Settings.Basic
import MqttBroker.Topic.Namespaces

/-!
Access control: who may publish to a topic and subscribe to a filter. A grant is a topic pattern
that covers what is asked for. In a reserved namespace only patterns count that name it in their
first level, so wildcards never open it.
-/

namespace MqttBroker

inductive Principal
  | account (name : String)
  | certificate (commonName : String)
  | anonymous
  | internal
deriving DecidableEq

inductive Action
  | publish
  | subscribe
deriving DecidableEq

structure Grants where
  superuser : Bool
  publish : List Topic
  subscribe : List Topic
  namespaces : Namespaces

namespace Grants

def substitute (vars : List (String × String)) (pattern : String) : String :=
  vars.foldl (fun p v => Text.replaceAll v.1 v.2 p) pattern

def patterns (vars : List (String × String)) (texts : List String) : List Topic :=
  texts.filterMap fun p => (Topic.parse (substitute vars p)).toOption

def ofPermissions (p : Permissions) (ns : Namespaces) (vars : List (String × String)) : Grants :=
  { superuser := p.superuser, publish := patterns vars p.publish,
    subscribe := patterns vars p.subscribe, namespaces := ns }

def everything : Grants :=
  { superuser := true, publish := [], subscribe := [], namespaces := {} }

def patternsFor (g : Grants) : Action → List Topic
  | .publish => g.publish
  | .subscribe => g.subscribe

def names (pattern : Topic) (space : String) : Bool :=
  (pattern.levels.head?.bind Level.text?) = some space

def authorizes (g : Grants) (action : Action) (text : String) : Bool :=
  g.superuser || match Topic.parse text with
    | .error _ => false
    | .ok t => (g.patternsFor action).any fun p =>
      ((g.namespaces.of text).all fun space => names p space) && p.covers t

end Grants

structure AccessControl where
  acl : AclSettings
  namespaces : Namespaces

def Settings.access (s : Settings) : AccessControl where
  acl := s.acl
  namespaces := .ofList s.mqtt.systemTopicPrefixes

namespace AccessControl

def userPlaceholder : String := "$\x7busername\x7d"

def certificatePlaceholder : String := "$\x7bcommonname\x7d"

def accountGrants (ac : AccessControl) (name : String) (p : Permissions) : Grants :=
  .ofPermissions p ac.namespaces [(userPlaceholder, name)]

def certificateGrants (ac : AccessControl) (name : String) (p : Permissions) : Grants :=
  .ofPermissions p ac.namespaces [(certificatePlaceholder, name)]

def authenticateAccount (ac : AccessControl) (name : String) (password : Bytes) : Option Grants :=
  (ac.acl.accounts.find? fun a => a.username = name && utf8 a.password = password).map
    fun a => ac.accountGrants name a.permissions

def authenticateCertificate (ac : AccessControl) (name : String) : Option Grants :=
  (ac.acl.certificates.find? fun c => c.commonName = name).map
    fun c => ac.certificateGrants name c.permissions

def anonymous (ac : AccessControl) : Option Grants :=
  if ac.acl.allowAnonymous then some (.ofPermissions ac.acl.anonymous ac.namespaces []) else none

/-- The present grants of a principal who has been authenticated before. -/
def lookup (ac : AccessControl) : Principal → Option Grants
  | .account name =>
    (ac.acl.accounts.find? fun a => a.username = name).map
      fun a => ac.accountGrants name a.permissions
  | .certificate name => ac.authenticateCertificate name
  | .anonymous => ac.anonymous
  | .internal => some .everything

end AccessControl

end MqttBroker
