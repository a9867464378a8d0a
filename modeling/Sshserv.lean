import Sshserv.DataProvider.BoltSql
import Sshserv.Cmd.Listing
import Sshserv.Cmd.Lifetime
import Sshserv.Api.UserUpdates
import Sshserv.Api.Credentials
import Sshserv.Api.Quota
import Sshserv.Serv.Throttle
import Sshserv.Serv.ScpReplies
import Sshserv.Serv.Mkdir
import Sshserv.Serv.HomeSurvival
import Sshserv.Serv.Renaming
import Sshserv.Serv.UploadBooks
import Sshserv.Serv.QuotaScan
import Sshserv.Serv.UploadsAgree
import Sshserv.Serv.FailedWrites
import Sshserv.Serv.Forwarding
import Sshserv.Serv.Stats
import Sshserv.Serv.RelativePath
import Sshserv.Sftp.Controller
import Sshserv.Sftp.Packet
import Sshserv.Sftp.Filelist
import Sshserv.Serv.Schedules
import Sshserv.Hh.Namespace
import Sshserv.Hh.Variables
import Sshserv.Cli.ExitCode
